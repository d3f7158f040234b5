import BitRev.Pieces.Availability

/-!
# What peers are told and tell about their pieces

The availability messages. A connection opens with one (`send_initial_bitfield`), and a magnet's
connections send a second one when the metadata is known (`send_post_metadata_bitfield`). What the
peer sends is kept in its stored bitfield, or, while the number of pieces is not known, in a hint
that `apply_have_hint` turns into the stored bitfield.

* `availability_denotes`: when what is sent says which pieces we have.
* `hint_same_pieces`: the hint loses nothing.
-/

namespace BitRev

open Availability List

/-- The messages that say which pieces the sender has. -/
inductive AvailabilityMessage where
  | havePiece (index : Nat)
  | bitfield (bytes : Bytes)
  | haveAll
  | haveNone
  deriving DecidableEq

/-! ## What we send -/

namespace TorrentDownloadedState

def sendInitialBitfield (t : TorrentDownloadedState) (fastExtension : Bool) :
    Option AvailabilityMessage :=
  if t.pieceCount = 0 then
    if fastExtension then some .haveNone else none
  else if fastExtension then
    some (if t.isComplete then .haveAll
      else if t.ourBits.isEmpty then .haveNone
      else .bitfield t.ourBits.bytes)
  else if !t.ourBits.isEmpty then some (.bitfield t.ourBits.bytes)
  else none

def sendPostMetadataBitfield (t : TorrentDownloadedState) (fastExtension : Bool) :
    Option AvailabilityMessage :=
  if t.pieceCount = 0 then none
  else if fastExtension then
    if t.isComplete then some .haveAll
    else if t.ourBits.isEmpty then some .haveNone
    else some (.bitfield t.ourBits.bytes)
  else if !t.ourBits.isEmpty then some (.bitfield t.ourBits.bytes)
  else none

end TorrentDownloadedState

/-- The pieces of a torrent of `count` pieces that a connection's opening message, or the lack of
one, says the sender has. A bitfield that has not one bit a piece and zeros up to the end of its
last byte is refused, and `Have` does not say what the sender has besides. -/
def decodeAvailability (count : Nat) : Option AvailabilityMessage → Option (List Bool)
  | none | some .haveNone => some (List.replicate count false)
  | some .haveAll => some (List.replicate count true)
  | some (.bitfield bytes) =>
    if bytes.length = (count + 7) / 8 ∧
        ∀ i < 8 * bytes.length, count ≤ i → (⟨bytes⟩ : Bitfield).hasPiece i = false then
      some ((List.range count).map (⟨bytes⟩ : Bitfield).hasPiece)
    else none
  | some (.havePiece _) => none

namespace TorrentDownloadedState

def owned (t : TorrentDownloadedState) : List Bool := (List.range t.pieceCount).map t.hasPiece

variable (t : TorrentDownloadedState)

/-- A peer that knows the number of pieces reads the message as the pieces we have. -/
def Denotes (m : Option AvailabilityMessage) : Prop :=
  decodeAvailability t.pieceCount m = some t.owned

/-- Where `HaveAll` would be sent, every piece is downloaded. -/
def HaveAllHolds (fastExtension : Bool) : Prop :=
  fastExtension → t.isComplete → ∀ pw ∈ t.pieces, pw.downloaded

lemma hasPiece_of_pieceCount_le {i : Nat} (h : t.pieceCount ≤ i) : t.hasPiece i = false := by
  rw [hasPiece, getElem?_eq_none h]
  rfl

/-- Our bitfield reads as the pieces we have. -/
lemma decode_ourBits :
    decodeAvailability t.pieceCount (some (.bitfield t.ourBits.bytes)) = some t.owned := by
  rw [decodeAvailability, if_pos]
  · exact congrArg some (map_congr_left fun i _ => t.hasPiece_ourBits i)
  · exact ⟨t.length_ourBits, fun i _ hi =>
      (t.hasPiece_ourBits i).trans (t.hasPiece_of_pieceCount_le hi)⟩

lemma owned_of_isEmpty (h : t.ourBits.isEmpty) :
    t.owned = List.replicate t.pieceCount false := by
  rw [Bitfield.isEmpty_iff] at h
  rw [owned, map_congr_left fun i _ => (t.hasPiece_ourBits i).symm.trans (h i),
    map_const', length_range]

lemma owned_all_iff : t.owned = List.replicate t.pieceCount true ↔
    ∀ pw ∈ t.pieces, pw.downloaded := by
  rw [owned, eq_replicate_iff, length_map, length_range, forall_mem_map]
  simp +contextual [hasPiece, pieceCount, forall_mem_iff_getElem]

/-- With a piece to speak of, both messages are chosen alike. -/
lemma sendPostMetadataBitfield_eq (fast : Bool) (h : t.pieceCount ≠ 0) :
    t.sendPostMetadataBitfield fast = t.sendInitialBitfield fast := by
  simp only [sendPostMetadataBitfield, sendInitialBitfield, if_neg h]
  cases fast <;> simp only [Bool.false_eq_true, if_true, if_false]
  split
  · rfl
  · split <;> rfl

lemma denotes_sendInitialBitfield (fast : Bool) (h : t.HaveAllHolds fast) :
    t.Denotes (t.sendInitialBitfield fast) := by
  unfold sendInitialBitfield Denotes
  split
  · rename_i hzero
    have howned : t.owned = [] := by rw [owned, hzero]; rfl
    rw [howned, hzero]
    cases fast <;> rfl
  · cases fast with
    | true =>
      simp only [if_true]
      split
      · rename_i hcomplete
        rw [t.owned_all_iff.2 (h rfl hcomplete)]
        rfl
      · split_ifs with hempty
        · rw [t.owned_of_isEmpty hempty]
          rfl
        · exact t.decode_ourBits
    | false =>
      simp only [Bool.false_eq_true, if_false]
      split_ifs with hempty
      · exact t.decode_ourBits
      · rw [t.owned_of_isEmpty (by simpa using hempty)]
        rfl

/-- What a connection is told says exactly which pieces we have, unless the fast extension is on and
every wanted piece is downloaded while a skipped one is not. -/
theorem availability_denotes (fast : Bool) :
    (t.Denotes (t.sendInitialBitfield fast) ↔ t.HaveAllHolds fast) ∧
      (t.Denotes (t.sendPostMetadataBitfield fast) ↔ t.HaveAllHolds fast) := by
  have hinitial : t.Denotes (t.sendInitialBitfield fast) ↔ t.HaveAllHolds fast := by
    refine ⟨fun h hfast hcomplete => ?_, t.denotes_sendInitialBitfield fast⟩
    by_cases hzero : t.pieceCount = 0
    · rw [length_eq_zero_iff.1 hzero]
      exact fun _ hpw => absurd hpw not_mem_nil
    · -- `HaveAll` is sent
      simp only [Denotes, sendInitialBitfield, if_neg hzero, hfast, hcomplete, if_true] at h
      exact t.owned_all_iff.1 (Option.some.inj h).symm
  refine ⟨hinitial, ?_⟩
  by_cases hzero : t.pieceCount = 0
  · simp [Denotes, HaveAllHolds, sendPostMetadataBitfield, decodeAvailability, owned, hzero,
      length_eq_zero_iff.1 hzero]
  · rw [t.sendPostMetadataBitfield_eq fast hzero]
    exact hinitial

end TorrentDownloadedState

def halfDownloaded : TorrentDownloadedState :=
  { pieces := [{ pieceWork := ⟨0, 2, 0⟩, downloaded := true }, { pieceWork := ⟨1, 2, 0⟩ }]
    verified := 1
    piecePriority := [.normal, .skip] }

/-- With its second piece skipped, a half downloaded torrent is complete, and `HaveAll` offers the
piece it does not have. -/
theorem availability_denotes_skipped :
    ¬ ∀ (t : TorrentDownloadedState) (fast : Bool),
      t.Denotes (t.sendInitialBitfield fast) ∧ t.Denotes (t.sendPostMetadataBitfield fast) := by
  intro h
  exact absurd (h halfDownloaded true).1 (by unfold TorrentDownloadedState.Denotes; decide)

/-! ## What a peer tells us -/

/-- What a peer said it has while the number of pieces was not known. -/
inductive PeerHaveHint where
  | unknown
  | all
  | none
  | bitfield (bytes : Bytes)
  | haves (indices : List Nat)

def PeerHaveHint.recordIndex (index : Nat) : PeerHaveHint → PeerHaveHint
  | unknown => haves [index]
  | haves indices => if index ∈ indices then haves indices else haves (indices ++ [index])
  | hint => hint

structure PeerHave where
  fast : Bool
  bitfield : Bitfield := ⟨[]⟩
  hint : PeerHaveHint := .unknown

namespace PeerHave

section

variable (a : Availability)

/-- A message that says all the peer has: it replaces the bitfield, or the hint before the number
of pieces is known. -/
def snapshot (p : PeerHave) (hint : PeerHaveHint) (next : Bitfield) : Availability × PeerHave :=
  if a.pieceCount = 0 then (a, { p with hint })
  else (a.applyPeerBitfield p.bitfield next, { p with bitfield := next })

/-- The arms of `on_received_message` for these messages. Without the fast extension its messages
are an error, which ends the connection. -/
def receive (p : PeerHave) : AvailabilityMessage → Option (Availability × PeerHave)
  | .havePiece index =>
    some (if a.pieceCount = 0 then (a, { p with hint := p.hint.recordIndex index })
      else
        let (a, bitfield) := a.applyPeerHave p.bitfield index
        (a, { p with bitfield }))
  | .bitfield bytes => some (p.snapshot a (.bitfield bytes) ⟨bytes⟩)
  | .haveAll => if p.fast then some (p.snapshot a .all (.filled a.pieceCount)) else none
  | .haveNone => if p.fast then some (p.snapshot a .none (.withPieceCount a.pieceCount)) else none

/-- The messages of a connection, one after the other. -/
def receiveAll (p : PeerHave) (ms : List AvailabilityMessage) : Option (Availability × PeerHave) :=
  ms.foldlM (fun ap m => ap.2.receive ap.1 m) (a, p)

def applyHaveHint (p : PeerHave) : Availability × PeerHave :=
  if a.pieceCount = 0 then (a, p)
  else
    let replaced (next : Bitfield) : Availability × PeerHave :=
      (a.applyPeerBitfield p.bitfield next, { p with bitfield := next, hint := .unknown })
    match p.hint with
    | .unknown => (a, p)
    | .all => replaced (.filled a.pieceCount)
    | .none => replaced (.withPieceCount a.pieceCount)
    | .bitfield bytes => replaced ⟨bytes⟩
    | .haves indices =>
      let (a, bitfield) := indices.foldl (fun ab i => ab.1.applyPeerHave ab.2 i) (a, p.bitfield)
      (a, { p with bitfield, hint := .unknown })

end

/-- The messages of a magnet's peer: the metadata becomes known between `before` and `after`. -/
def receiveMagnet (pieceCount : Nat) (p : PeerHave) (before after : List AvailabilityMessage) :
    Option (Availability × PeerHave) :=
  (p.receiveAll (.new 0) before).bind fun ap =>
    let (a, p) := ap.2.applyHaveHint (.new pieceCount)
    p.receiveAll a after

def pieces (pieceCount : Nat) (p : PeerHave) : List Bool :=
  (List.range pieceCount).map p.bitfield.hasPiece

end PeerHave

/-- No `Have` comes while the last message before it that said all the peer has is a `Bitfield` or
a `HaveNone`; `partly` says that this is so at the start. -/
def HavesHeard : Bool → List AvailabilityMessage → Prop
  | _, [] => True
  | partly, .havePiece _ :: ms => partly = false ∧ HavesHeard partly ms
  | _, .bitfield _ :: ms => HavesHeard true ms
  | _, .haveAll :: ms => HavesHeard false ms
  | _, .haveNone :: ms => HavesHeard true ms

/-- Two bitfields that hold the same of the first `n` pieces and have a byte for the same ones. -/
structure Bitfield.Agree (n : Nat) (b b' : Bitfield) : Prop where
  length : b.bytes.length = b'.bytes.length
  hasPiece : ∀ i < n, b.hasPiece i = b'.hasPiece i

namespace Bitfield

variable {n : Nat} {b b' c : Bitfield}

lemma Agree.refl (n : Nat) (b : Bitfield) : b.Agree n b := ⟨rfl, fun _ _ => rfl⟩

lemma Agree.symm (h : b.Agree n b') : b'.Agree n b :=
  ⟨h.length.symm, fun i hi => (h.hasPiece i hi).symm⟩

lemma Agree.trans (h : b.Agree n b') (h' : b'.Agree n c) : b.Agree n c :=
  ⟨h.length.trans h'.length, fun i hi => (h.hasPiece i hi).trans (h'.hasPiece i hi)⟩

lemma Agree.setPiece (h : b.Agree n b') (i : Nat) : (b.setPiece i).Agree n (b'.setPiece i) := by
  refine ⟨by simpa using h.length, fun j hj => ?_⟩
  rw [hasPiece_setPiece, hasPiece_setPiece, h.hasPiece j hj, h.length]

/-- Setting a piece that is there, or is not one of the `n`, changes nothing. -/
lemma agree_setPiece {i : Nat} (h : i < n → b.hasPiece i) : b.Agree n (b.setPiece i) := by
  refine ⟨(length_setPiece b i).symm, fun j hj => ?_⟩
  rw [hasPiece_setPiece]
  by_cases hij : i = j
  · subst hij
    rw [h hj, Bool.true_or]
  · simp [hij]

lemma applyPeerHave_agree (a : Availability) (b : Bitfield) (i : Nat) :
    (b.setPiece i).Agree n (a.applyPeerHave b i).2 := by
  unfold Availability.applyPeerHave
  split_ifs with hi
  · exact (agree_setPiece fun _ => hi).symm
  · exact .refl n _

lemma applyPeerHave_empty (a : Availability) (i : Nat) : (a.applyPeerHave ⟨[]⟩ i).2 = ⟨[]⟩ := by
  rw [applyPeerHave, hasPiece_of_length_le _ _ (Nat.zero_le _)]
  simp [setPiece]

end Bitfield

namespace PeerHave

open Bitfield

/-- Two connections that know the number of pieces and have heard of the same pieces. -/
structure Alike (n : Nat) (x y : Availability × PeerHave) : Prop where
  left : x.1.pieceCount = n
  right : y.1.pieceCount = n
  fast : x.2.fast = y.2.fast
  agree : x.2.bitfield.Agree n y.2.bitfield

variable {x y : Availability × PeerHave} {n : Nat}

lemma Alike.snapshot (hn : n ≠ 0) (h : Alike n x y) (hint : PeerHaveHint) (next : Bitfield) :
    Alike n (x.2.snapshot x.1 hint next) (y.2.snapshot y.1 hint next) := by
  have hx : x.1.pieceCount ≠ 0 := h.left ▸ hn
  have hy : y.1.pieceCount ≠ 0 := h.right ▸ hn
  simp only [PeerHave.snapshot, if_neg hx, if_neg hy]
  exact ⟨by simpa using h.left, by simpa using h.right, h.fast, .refl n _⟩

/-- A message leaves connections that have heard of the same pieces alike, or ends both. -/
lemma Alike.receive (hn : n ≠ 0) (h : Alike n x y)
    (m : AvailabilityMessage) : Option.Rel (Alike n) (x.2.receive x.1 m) (y.2.receive y.1 m) := by
  have hx : x.1.pieceCount ≠ 0 := h.left ▸ hn
  have hy : y.1.pieceCount ≠ 0 := h.right ▸ hn
  cases m with
  | havePiece i =>
    simp only [PeerHave.receive, if_neg hx, if_neg hy]
    refine .some ⟨?_, ?_, h.fast, ?_⟩
    · exact (pieceCount_applyPeerHave ..).trans h.left
    · exact (pieceCount_applyPeerHave ..).trans h.right
    · exact ((applyPeerHave_agree x.1 _ i).symm.trans (h.agree.setPiece i)).trans
        (applyPeerHave_agree y.1 _ i)
  | bitfield bytes => exact .some (h.snapshot hn _ _)
  | haveAll | haveNone =>
    simp only [PeerHave.receive, h.fast, h.left, h.right]
    split
    · exact .some (h.snapshot hn _ _)
    · exact .none

/-- A relation that each message keeps, indexed by the messages still to come, holds after all of
them. -/
lemma receiveAll_rel
    {R : List AvailabilityMessage → Availability × PeerHave → Availability × PeerHave → Prop}
    (h : ∀ {x y m ms}, R (m :: ms) x y → Option.Rel (R ms) (x.2.receive x.1 m) (y.2.receive y.1 m))
    {ms : List AvailabilityMessage} (hxy : R ms x y) :
    Option.Rel (R []) (x.2.receiveAll x.1 ms) (y.2.receiveAll y.1 ms) := by
  induction ms generalizing x y with
  | nil => exact .some hxy
  | cons m ms ih =>
    have hm := h hxy
    simp only [receiveAll, foldlM_cons] at ih ⊢
    generalize x.2.receive x.1 m = x' at hm ⊢
    generalize y.2.receive y.1 m = y' at hm ⊢
    cases hm with
    | some hm => exact ih hm
    | none => exact .none

/-- The hint stands for this bitfield of a connection that knew the number of pieces from the
start. A `Have` before anything else is lost there too: the bitfield has no bytes yet. -/
def Hinted (n : Nat) : PeerHaveHint → Bitfield → Prop
  | .unknown, b | .haves _, b => b = ⟨[]⟩
  | .all, b => (Bitfield.filled n).Agree n b
  | .none, b => b = .withPieceCount n
  | .bitfield bytes, b => b = ⟨bytes⟩

def partly : PeerHaveHint → Bool
  | .none | .bitfield _ => true
  | .unknown | .haves _ | .all => false

/-- A connection that waits for the metadata and one that had it from the start, after the same
messages. -/
structure Waiting (n : Nat) (x y : Availability × PeerHave) : Prop where
  left : x.1.pieceCount = 0
  right : y.1.pieceCount = n
  fast : x.2.fast = y.2.fast
  bits : x.2.bitfield = ⟨[]⟩
  hinted : Hinted n x.2.hint y.2.bitfield

lemma Waiting.snapshot (hn : n ≠ 0)
    (h : Waiting n x y) {hint : PeerHaveHint} {b next : Bitfield} (hh : Hinted n hint next) :
    Waiting n (x.2.snapshot x.1 hint b) (y.2.snapshot y.1 hint next) := by
  have hy : y.1.pieceCount ≠ 0 := h.right ▸ hn
  simp only [PeerHave.snapshot, if_pos h.left, if_neg hy]
  exact ⟨h.left, by simpa using h.right, h.fast, h.bits, hh⟩

/-- A `Have` that the hint can hold adds nothing that the other connection keeps either. -/
lemma Hinted.recordIndex {hint : PeerHaveHint} {b : Bitfield} (h : Hinted n hint b)
    (hpart : partly hint = false) (a : Availability) (i : Nat) :
    Hinted n (hint.recordIndex i) (a.applyPeerHave b i).2 ∧
      partly (hint.recordIndex i) = false := by
  cases hint with
  | unknown =>
    cases h
    exact ⟨applyPeerHave_empty a i, rfl⟩
  | haves indices =>
    cases h
    simp only [PeerHaveHint.recordIndex]
    split
    · exact ⟨applyPeerHave_empty a i, rfl⟩
    · exact ⟨applyPeerHave_empty a i, rfl⟩
  | all =>
    refine ⟨?_, rfl⟩
    refine Bitfield.Agree.trans (h.trans ?_) (applyPeerHave_agree a b i)
    refine agree_setPiece fun hi => ?_
    rw [← h.hasPiece i hi, hasPiece_filled, decide_eq_true hi]
  | none | bitfield bytes => cases hpart

lemma Waiting.receive (hn : n ≠ 0) (h : Waiting n x y) {m : AvailabilityMessage}
    {ms : List AvailabilityMessage} (hm : HavesHeard (partly x.2.hint) (m :: ms)) :
    Option.Rel (fun x y => Waiting n x y ∧ HavesHeard (partly x.2.hint) ms)
      (x.2.receive x.1 m) (y.2.receive y.1 m) := by
  have hy : y.1.pieceCount ≠ 0 := h.right ▸ hn
  have hpart : ∀ hint b, partly (x.2.snapshot x.1 hint b).2.hint = partly hint := by
    intro hint b
    rw [PeerHave.snapshot, if_pos h.left]
  cases m with
  | havePiece i =>
    obtain ⟨hhint, hnext⟩ := h.hinted.recordIndex hm.1 y.1 i
    simp only [PeerHave.receive, if_pos h.left, if_neg hy]
    refine .some ⟨⟨h.left, ?_, h.fast, h.bits, hhint⟩, ?_⟩
    · exact (pieceCount_applyPeerHave ..).trans h.right
    · exact hnext.symm ▸ hm.1 ▸ hm.2
  | bitfield bytes => exact .some ⟨h.snapshot hn rfl, (hpart _ _).symm ▸ hm⟩
  | haveAll =>
    simp only [PeerHave.receive, h.fast]
    split
    · refine .some ⟨h.snapshot hn ?_, (hpart _ _).symm ▸ hm⟩
      rw [h.right]
      exact .refl n _
    · exact .none
  | haveNone =>
    simp only [PeerHave.receive, h.fast]
    split
    · refine .some ⟨h.snapshot hn ?_, (hpart _ _).symm ▸ hm⟩
      rw [h.right]
      rfl
    · exact .none

lemma applyHaves_empty (a : Availability) (indices : List Nat) :
    let ab := indices.foldl (fun ab i => ab.1.applyPeerHave ab.2 i) (a, (⟨[]⟩ : Bitfield))
    ab.1.pieceCount = a.pieceCount ∧ ab.2 = ⟨[]⟩ := by
  refine foldlRecOn (motive := fun ab : Availability × Bitfield =>
    ab.1.pieceCount = a.pieceCount ∧ ab.2 = ⟨[]⟩) _ _ ⟨rfl, rfl⟩ fun ab h i _ => ?_
  rw [h.2]
  exact ⟨(pieceCount_applyPeerHave ..).trans h.1, applyPeerHave_empty ..⟩

/-- Once the metadata is known, the connection that waited for it has heard of the same pieces as
the one that did not have to. -/
lemma Waiting.applyHaveHint (hn : n ≠ 0)
    (h : Waiting n x y) : Alike n (x.2.applyHaveHint (.new n)) y := by
  have hnew : (new n).pieceCount ≠ 0 := by simpa using hn
  have hhint := h.hinted
  simp only [PeerHave.applyHaveHint, if_neg hnew]
  cases hx : x.2.hint with
  | unknown =>
    rw [hx] at hhint
    refine ⟨by simp, h.right, h.fast, ?_⟩
    rw [h.bits, hhint]
    exact .refl n _
  | haves indices =>
    rw [hx] at hhint
    obtain ⟨hcount, hbits⟩ := applyHaves_empty (.new n) indices
    rw [h.bits]
    refine ⟨hcount.trans (by simp), h.right, h.fast, ?_⟩
    have hsame : y.2.bitfield = ⟨[]⟩ := hhint
    rw [hsame]
    exact ⟨congrArg (·.bytes.length) hbits, fun i _ => congrArg (·.hasPiece i) hbits⟩
  | all =>
    rw [hx] at hhint
    refine ⟨by simp, h.right, h.fast, ?_⟩
    rw [pieceCount_new]
    exact hhint
  | none =>
    rw [hx] at hhint
    refine ⟨by simp, h.right, h.fast, ?_⟩
    rw [hhint]
    simpa using Bitfield.Agree.refl n _
  | bitfield bytes =>
    rw [hx] at hhint
    refine ⟨by simp, h.right, h.fast, ?_⟩
    rw [hhint]
    exact .refl n _

lemma Alike.pieces_eq (h : Alike n x y) : x.2.pieces n = y.2.pieces n :=
  map_congr_left fun i hi => h.agree.hasPiece i (mem_range.1 hi)

lemma map_pieces_eq {x y : Option (Availability × PeerHave)} (h : Option.Rel (Alike n) x y) :
    x.map (·.2.pieces n) = y.map (·.2.pieces n) := by
  cases h with
  | some h => exact congrArg some h.pieces_eq
  | none => rfl

/-- Wherever in its messages the metadata becomes known, a peer's stored bitfield ends up with the
same pieces as if it had been known from the start, if before it no `Have` comes after a
`Bitfield` or `HaveNone`. -/
theorem hint_same_pieces {n : Nat} (hn : n ≠ 0) (fast : Bool)
    (before after : List AvailabilityMessage) (h : HavesHeard false before) :
    (receiveMagnet n { fast } before after).map (·.2.pieces n) =
      (receiveAll (.new n) { fast } (before ++ after)).map (·.2.pieces n) := by
  have hbefore := receiveAll_rel
    (R := fun ms x y => Waiting n x y ∧ HavesHeard (partly x.2.hint) ms)
    (fun hxy => hxy.1.receive hn hxy.2) (x := (.new 0, { fast })) (y := (.new n, { fast }))
    ⟨⟨by simp, by simp, rfl, rfl, rfl⟩, h⟩
  rw [receiveMagnet, receiveAll, receiveAll, foldlM_append]
  simp only [receiveAll] at hbefore
  generalize foldlM (m := Option) _ (new 0, ({ fast } : PeerHave)) before = x at hbefore ⊢
  generalize foldlM (m := Option) _ (new n, ({ fast } : PeerHave)) before = y at hbefore ⊢
  cases hbefore with
  | none => rfl
  | some hxy =>
    exact map_pieces_eq
      (receiveAll_rel (R := fun _ => Alike n) (fun h => h.receive hn _) (hxy.1.applyHaveHint hn))

/-- The first two of ten pieces, and a third one after the metadata. -/
theorem hint_same_pieces_ten :
    (receiveMagnet 10 { fast := false } [.havePiece 1, .bitfield [0xc0, 0]] [.havePiece 9]).map
        (·.2.pieces 10) =
      some [true, true, false, false, false, false, false, false, false, true] := by
  rw [hint_same_pieces (by decide) false _ _ (by simp [HavesHeard])]
  decide

/-- A peer that starts with nothing and gets a piece before the metadata is known. -/
theorem hint_same_pieces_lost :
    ¬ ∀ (n : Nat), n ≠ 0 → ∀ (fast : Bool) (before after : List AvailabilityMessage),
      (receiveMagnet n { fast } before after).map (·.2.pieces n) =
        (receiveAll (.new n) { fast } (before ++ after)).map (·.2.pieces n) := by
  intro h
  exact absurd (h 1 (by decide) true [.haveNone, .havePiece 0] []) (by decide)

end PeerHave

end BitRev
