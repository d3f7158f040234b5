import BitRev.Framework.Assoc
import BitRev.Framework.Run
import BitRev.Pieces.Table

/-!
# The metadata store

`MetadataStore` (`extension/ut_metadata.rs`): where the connections of a magnet put together the
`info` dict that its info hash names. The first size a peer advertises starts a fetch; a piece is
handed to one peer at a time and comes back with its data, by a reject, by a timeout or when the
peer leaves. The piece that fills the last slot decides: the assembled bytes are kept if their
digest is the info hash, and thrown away with the whole fetch if not.

Every call takes the lock of the store once, so any interleaving of calls is a sequence of them.
`Ledger` is the store with the pieces that `claim_requests` handed out and no call has taken back.
Times are in nanoseconds.
-/

namespace BitRev

open List Option AList Prod Assoc

def metadataPieceLen : Nat := 16 * 1024
def metadataRequestTimeout : Nat := 10 * 10 ^ 9
def maxMetadataSize : Int := 8 * 1024 * 1024

structure Inflight where
  peer : PeerAddr
  since : Nat

abbrev Inflights := AList fun _ : Nat => Inflight

structure FetchState where
  size : Nat
  pieces : List (Option Bytes)
  inflight : Inflights := ∅
  contributors : List PeerAddr := []

namespace FetchState

def new (size : Nat) : FetchState :=
  { size, pieces := List.replicate ((size + metadataPieceLen - 1) / metadataPieceLen) none }

def pieceLen (f : FetchState) (piece : Nat) : Option Nat :=
  if piece ≥ f.pieces.length then none
  else if piece + 1 = f.pieces.length then
    let rem := f.size % metadataPieceLen
    some (if rem = 0 then metadataPieceLen else rem)
  else some metadataPieceLen

/-- The loop of `claim_requests` over the slots from `idx` on. -/
def claimFrom (peer : PeerAddr) (max now : Nat) :
    List (Option Bytes) → Nat → Inflights → List Nat → Inflights × List Nat
  | [], _, inflight, out => (inflight, out)
  | slot :: slots, idx, inflight, out =>
    if out.length ≥ max then (inflight, out)
    else if slot.isSome then claimFrom peer max now slots (idx + 1) inflight out
    else if idx ∈ inflight then claimFrom peer max now slots (idx + 1) inflight out
    else
      claimFrom peer max now slots (idx + 1) (inflight.insert idx { peer, since := now })
        (out ++ [idx])

variable {peer : PeerAddr} {max now : Nat}

/-- What the loop claims besides `out`: pieces with a free slot that are not in flight, and one at
least if there is one and it may claim any. -/
structure Claims (peer : PeerAddr) (max now : Nat) (slots : List (Option Bytes)) (idx : Nat)
    (inflight : Inflights) (out : List Nat) (r : Inflights × List Nat) (new : List Nat) : Prop where
  result : r.2 = out ++ new
  free : ∀ p ∈ new, ∃ k, p = idx + k ∧ slots[k]? = some none ∧ inflight.lookup p = none
  lookup : ∀ p, r.1.lookup p =
    if p ∈ new then some { peer, since := now } else inflight.lookup p
  claims : out.length < max → ∀ k, slots[k]? = some none → inflight.lookup (idx + k) = none →
    new ≠ []

/-- A slot that is filled or in flight is passed over. -/
lemma Claims.skip {slot : Option Bytes} {slots : List (Option Bytes)} {idx : Nat}
    {inflight : Inflights} {out new : List Nat} {r : Inflights × List Nat}
    (h : Claims peer max now slots (idx + 1) inflight out r new)
    (hne : slot = none → idx ∈ inflight) :
    Claims peer max now (slot :: slots) idx inflight out r new := by
  refine ⟨h.result, fun p hp => ?_, h.lookup, fun hmax k hk hl => ?_⟩
  · obtain ⟨k, rfl, hk, hl⟩ := h.free p hp
    exact ⟨k + 1, by omega, by simpa using hk, hl⟩
  · cases k with
    | zero =>
      have hslot : slot = none := by simpa using hk
      exact absurd (hne hslot) (lookup_eq_none.1 hl)
    | succ k =>
      refine h.claims hmax k (by simpa using hk) ?_
      rwa [show idx + 1 + k = idx + (k + 1) by omega]

lemma claimFrom_spec (peer : PeerAddr) (max now : Nat) (slots : List (Option Bytes)) (idx : Nat)
    (inflight : Inflights) (out : List Nat) :
    ∃ new, Claims peer max now slots idx inflight out
      (claimFrom peer max now slots idx inflight out) new := by
  induction slots generalizing idx inflight out with
  | nil => exact ⟨[], ⟨by simp [claimFrom], by simp, by simp [claimFrom], by simp⟩⟩
  | cons slot slots ih =>
    rw [claimFrom]
    by_cases hmax : out.length ≥ max
    · rw [if_pos hmax]
      exact ⟨[], ⟨by simp, by simp, by simp, fun h => absurd h (by omega)⟩⟩
    rw [if_neg hmax]
    by_cases hslot : slot.isSome
    · rw [if_pos hslot]
      obtain ⟨new, h⟩ := ih (idx + 1) inflight out
      exact ⟨new, h.skip fun hn => by simp [hn] at hslot⟩
    rw [if_neg hslot]
    by_cases hin : idx ∈ inflight
    · rw [if_pos hin]
      obtain ⟨new, h⟩ := ih (idx + 1) inflight out
      exact ⟨new, h.skip fun _ => hin⟩
    rw [if_neg hin]
    obtain ⟨new, h⟩ := ih (idx + 1) (inflight.insert idx { peer, since := now }) (out ++ [idx])
    refine ⟨idx :: new, ⟨by simp [h.result], fun p hp => ?_, fun p => ?_, fun _ _ _ _ => by simp⟩⟩
    · rcases mem_cons.1 hp with rfl | hp
      · exact ⟨0, rfl, by simpa using hslot, lookup_eq_none.2 hin⟩
      · obtain ⟨k, rfl, hk, hl⟩ := h.free p hp
        rw [lookup_insert_ne (by omega)] at hl
        exact ⟨k + 1, by omega, by simpa using hk, hl⟩
    · rw [h.lookup p]
      by_cases hpi : p = idx
      · subst hpi
        simp [lookup_insert]
      · simp [hpi, lookup_insert_ne hpi]

def assembled (f : FetchState) : Bytes :=
  (f.pieces.flatMap fun part => part.getD []).take f.size

end FetchState

inductive DataOutcome where
  | accepted | complete | alreadyComplete | duplicate | unrequested | invalid | hashMismatch
  deriving DecidableEq

structure MetadataStore where
  infoHash : Digest
  infoBytes : Option Bytes := none
  fetch : Option FetchState := none
  /-- The values that were sent on the completion watch. -/
  completed : List Bytes := []

namespace MetadataStore

def new (infoHash : Digest) : MetadataStore := { infoHash }

variable (m : MetadataStore)

def adoptSize (size : Int) : Option Nat × MetadataStore :=
  if size ≤ 0 ∨ size > maxMetadataSize then (none, m)
  else
    match m.infoBytes, m.fetch with
    | some bytes, _ => (some bytes.length, m)
    | none, some f => (if f.size = size.toNat then some size.toNat else none, m)
    | none, none => (some size.toNat, { m with fetch := some (.new size.toNat) })

def claimRequests (peer : PeerAddr) (max now : Nat) : List Nat × MetadataStore :=
  if max = 0 ∨ m.infoBytes.isSome then ([], m)
  else
    match m.fetch with
    | none => ([], m)
    | some f =>
      let (inflight, out) := FetchState.claimFrom peer max now f.pieces 0 f.inflight []
      (out, { m with fetch := some { f with inflight } })

/-- The slot is filled; the last one decides. The failures are the peers that
`record_hash_failure` is called for, each with `sole_contributor`. A watch that nobody watches
takes no value. -/
def fill (sha1 : Bytes → Digest) (m : MetadataStore) (f : FetchState) (watched : Bool) :
    DataOutcome × MetadataStore × List (PeerAddr × Bool) :=
  if none ∈ f.pieces then (.accepted, { m with fetch := some f }, [])
  else if sha1 f.assembled ≠ m.infoHash then
    (.hashMismatch, { m with fetch := none },
      f.contributors.map fun peer => (peer, f.contributors.length = 1))
  else
    (.complete,
      { m with
        infoBytes := some f.assembled, fetch := none
        completed := if watched then m.completed ++ [f.assembled] else m.completed }, [])

def onData (sha1 : Bytes → Digest) (m : MetadataStore) (peer : PeerAddr) (piece : Nat)
    (data : Bytes) (totalSize : Option Int) (watched : Bool) :
    DataOutcome × MetadataStore × List (PeerAddr × Bool) :=
  if m.infoBytes.isSome then (.alreadyComplete, m, [])
  else
    match m.fetch with
    | none => (.unrequested, m, [])
    | some f =>
      if totalSize.any fun size => size ≤ 0 ∨ size.toNat ≠ f.size then (.invalid, m, [])
      else if f.pieceLen piece ≠ some data.length then (.invalid, m, [])
      else
        match f.inflight.lookup piece with
        | none =>
          (if (f.pieces.getD piece none).isSome then .duplicate else .unrequested, m, [])
        | some inf =>
          if inf.peer ≠ peer then (.unrequested, m, [])
          else
            let f := { f with inflight := f.inflight.erase piece }
            if (f.pieces.getD piece none).isSome then
              (.duplicate, { m with fetch := some f }, [])
            else
              m.fill sha1 { f with
                pieces := f.pieces.set piece (some data)
                contributors := f.contributors.insert peer } watched

def onReject (peer : PeerAddr) (piece : Nat) : MetadataStore :=
  match m.fetch with
  | none => m
  | some f =>
    if (f.inflight.lookup piece).any (·.peer = peer) then
      { m with fetch := some { f with inflight := f.inflight.erase piece } }
    else m

def onPeerGone (peer : PeerAddr) : MetadataStore :=
  match m.fetch with
  | none => m
  | some f =>
    let inflight := Assoc.retain (fun _ inf => inf.peer ≠ peer) f.inflight
    { m with fetch := some { f with inflight } }

def timedOut (now since : Nat) : Bool := now - since ≥ metadataRequestTimeout

def releaseTimeouts (now : Nat) : List Nat × MetadataStore :=
  match m.fetch with
  | none => ([], m)
  | some f =>
    let inflight := Assoc.retain (fun _ inf => !timedOut now inf.since) f.inflight
    ((f.inflight.entries.filter fun x => timedOut now x.2.since).map (·.1),
      { m with fetch := some { f with inflight } })

def servePiece (piece : Nat) : Option (Bytes × Int) :=
  m.infoBytes.bind fun bytes =>
    let start := piece * metadataPieceLen
    if start ≥ bytes.length then none
    else some ((bytes.drop start).take metadataPieceLen, bytes.length)

/-- The peer a piece is in flight at, and since when. -/
def inflightAt (piece : Nat) : Option Inflight :=
  m.fetch.bind fun f => f.inflight.lookup piece

def slot (piece : Nat) : Option Bytes :=
  m.fetch.bind fun f => f.pieces.getD piece none

end MetadataStore

/-! ## Any interleaving of calls -/

inductive StoreCall where
  | adoptSize (size : Int)
  | claimRequests (peer : PeerAddr) (max now : Nat)
  | onData (peer : PeerAddr) (piece : Nat) (data : Bytes) (totalSize : Option Int) (watched : Bool)
  | onReject (peer : PeerAddr) (piece : Nat)
  | onPeerGone (peer : PeerAddr)
  | releaseTimeouts (now : Nat)

/-- The store with the pieces that peers were given to ask for and that no call has taken back. -/
structure Ledger where
  store : MetadataStore
  asked : List (Nat × PeerAddr) := []

namespace Ledger

def new (infoHash : Digest) : Ledger := { store := .new infoHash }

/-- A data message settles what its peer was given, unless it is refused. -/
def settles : DataOutcome → Bool
  | .accepted | .complete | .duplicate | .hashMismatch => true
  | .alreadyComplete | .unrequested | .invalid => false

def step (sha1 : Bytes → Digest) (l : Ledger) : StoreCall → Option Ledger
  | .adoptSize size => some { l with store := (l.store.adoptSize size).2 }
  | .claimRequests peer max now =>
    let r := l.store.claimRequests peer max now
    some { store := r.2, asked := l.asked ++ r.1.map fun p => (p, peer) }
  | .onData peer piece data totalSize watched =>
    let r := l.store.onData sha1 peer piece data totalSize watched
    some { store := r.2.1
           asked := if settles r.1 then l.asked.filter (· ≠ (piece, peer)) else l.asked }
  | .onReject peer piece =>
    some { store := l.store.onReject peer piece, asked := l.asked.filter (· ≠ (piece, peer)) }
  | .onPeerGone peer =>
    some { store := l.store.onPeerGone peer, asked := l.asked.filter (·.2 ≠ peer) }
  | .releaseTimeouts now =>
    let r := l.store.releaseTimeouts now
    some { store := r.2, asked := l.asked.filter (·.1 ∉ r.1) }

end Ledger

structure FetchState.Sound (f : FetchState) : Prop where
  free : ∀ p inf, f.inflight.lookup p = some inf → f.pieces[p]? = some none
  missing : none ∈ f.pieces
  filled : ∀ p d, f.pieces[p]? = some (some d) → f.pieceLen p = some d.length

namespace FetchState.Sound

variable {f : FetchState}

lemma new {size : Nat} (h : 0 < size) : (FetchState.new size).Sound := by
  have hn : 0 < (size + metadataPieceLen - 1) / metadataPieceLen :=
    Nat.div_pos (by omega) (by decide)
  refine ⟨fun p inf hl => ?_, ?_, fun p d hd => ?_⟩
  · simp [FetchState.new] at hl
  · exact mem_replicate.2 ⟨by omega, rfl⟩
  · simp [FetchState.new, getElem?_replicate] at hd

/-- Fewer pieces in flight. -/
lemma shrink (h : f.Sound) {inflight : Inflights}
    (hsub : ∀ p inf, inflight.lookup p = some inf → f.inflight.lookup p = some inf) :
    { f with inflight }.Sound :=
  ⟨fun p inf hl => h.free p inf (hsub p inf hl), h.missing, h.filled⟩

lemma claim (h : f.Sound) {peer : PeerAddr} {max now : Nat} {inflight : Inflights}
    {out new : List Nat} (hc : Claims peer max now f.pieces 0 f.inflight [] (inflight, out) new) :
    { f with inflight }.Sound := by
  refine ⟨fun p inf hl => ?_, h.missing, h.filled⟩
  have hlook := hc.lookup p
  rw [hl] at hlook
  split_ifs at hlook with hp
  · obtain ⟨k, rfl, hk, -⟩ := hc.free p hp
    simpa using hk
  · exact h.free p inf hlook.symm

lemma fill (h : f.Sound) {piece : Nat} {data : Bytes} {contributors : List PeerAddr}
    (hlen : f.pieceLen piece = some data.length) (hmiss : none ∈ f.pieces.set piece (some data)) :
    { f with pieces := f.pieces.set piece (some data), inflight := f.inflight.erase piece
             contributors }.Sound := by
  refine ⟨fun p inf hl => ?_, hmiss, fun p d hd => ?_⟩
  · obtain ⟨hne, hl⟩ := lookup_erase_cases hl
    simpa [getElem?_set_ne (Ne.symm hne)] using h.free p inf hl
  · have hp : FetchState.pieceLen { f with
        pieces := f.pieces.set piece (some data), inflight := f.inflight.erase piece
        contributors } p = f.pieceLen p := by
      simp [FetchState.pieceLen]
    rw [hp]
    rcases eq_or_ne piece p with rfl | hne
    · have hd' : data = d := by
        rcases List.getElem?_eq_some_iff.1 hd with ⟨hlt, hd⟩
        simpa using hd
      rw [hlen, hd']
    · exact h.filled p d (by simpa [getElem?_set_ne hne] using hd)

end FetchState.Sound

namespace MetadataStore

variable {m : MetadataStore} {peer : PeerAddr} {piece : Nat} {data : Bytes} {inf : Inflight}
  {p : Nat}

def received (f : FetchState) (peer : PeerAddr) (piece : Nat) (data : Bytes) : FetchState :=
  { f with
    pieces := f.pieces.set piece (some data), inflight := f.inflight.erase piece
    contributors := f.contributors.insert peer }

section

variable (sha1 : Bytes → Digest)

lemma onData_cases (h : ∀ f, m.fetch = some f → f.Sound) (peer : PeerAddr) (piece : Nat)
    (data : Bytes) (totalSize : Option Int) (watched : Bool) :
    ((m.onData sha1 peer piece data totalSize watched).2.1 = m ∧
      (Ledger.settles (m.onData sha1 peer piece data totalSize watched).1 →
        m.inflightAt piece = none)) ∨
    ∃ f since, m.infoBytes = none ∧ m.fetch = some f ∧
      f.inflight.lookup piece = some { peer, since } ∧ f.pieceLen piece = some data.length ∧
      m.onData sha1 peer piece data totalSize watched =
        m.fill sha1 (received f peer piece data) watched := by
  unfold onData
  by_cases hb : m.infoBytes.isSome
  · rw [if_pos hb]
    exact .inl ⟨rfl, fun hs => by cases hs⟩
  rw [if_neg hb]
  cases hf : m.fetch with
  | none => exact .inl ⟨rfl, fun hs => by cases hs⟩
  | some f =>
    dsimp only
    split
    · exact .inl ⟨rfl, fun hs => by cases hs⟩
    split
    · exact .inl ⟨rfl, fun hs => by cases hs⟩
    rename_i hlen
    split
    · rename_i hl
      exact .inl ⟨rfl, fun _ => by simp [inflightAt, hf, hl]⟩
    · rename_i inf hl
      split
      · exact .inl ⟨rfl, fun hs => by cases hs⟩
      rename_i hpeer
      -- the slot of a piece in flight is free
      have hfree := (h f hf).free piece inf hl
      have hslot : ¬ (f.pieces.getD piece none).isSome := by
        simp [getD_eq_getElem?_getD, hfree]
      rw [if_neg hslot]
      refine .inr ⟨f, inf.since, by simpa using hb, rfl, ?_, by simpa using hlen, rfl⟩
      rw [hl, ← not_not.1 hpeer]

/-- The slots after the last one was filled decide what becomes of the fetch. -/
lemma fill_cases (m : MetadataStore) (f : FetchState) (watched : Bool) :
    (none ∈ f.pieces ∧ m.fill sha1 f watched = (.accepted, { m with fetch := some f }, [])) ∨
    (none ∉ f.pieces ∧ ∃ blamed, m.fill sha1 f watched =
      (.hashMismatch, { m with fetch := none }, blamed)) ∨
    (none ∉ f.pieces ∧ sha1 f.assembled = m.infoHash ∧ m.fill sha1 f watched =
      (.complete,
        { m with
          infoBytes := some f.assembled, fetch := none
          completed := if watched then m.completed ++ [f.assembled] else m.completed }, [])) := by
  unfold fill
  by_cases hmiss : none ∈ f.pieces
  · exact .inl ⟨hmiss, by rw [if_pos hmiss]⟩
  rw [if_neg hmiss]
  by_cases hsum : sha1 f.assembled = m.infoHash
  · exact .inr (.inr ⟨hmiss, hsum, by rw [if_neg (not_not.2 hsum)]⟩)
  · exact .inr (.inl ⟨hmiss, _, by rw [if_pos hsum]⟩)

lemma claimRequests_cases (m : MetadataStore) (peer : PeerAddr) (max now : Nat) :
    (m.claimRequests peer max now = ([], m) ∧
      (max = 0 ∨ m.infoBytes.isSome ∨ m.fetch = none)) ∨
    ∃ f new inflight, m.infoBytes = none ∧ m.fetch = some f ∧ 0 < max ∧
      FetchState.Claims peer max now f.pieces 0 f.inflight [] (inflight, new) new ∧
      m.claimRequests peer max now = (new, { m with fetch := some { f with inflight } }) := by
  unfold claimRequests
  by_cases hmax : max = 0 ∨ m.infoBytes.isSome
  · rw [if_pos hmax]
    exact .inl ⟨rfl, hmax.imp_right .inl⟩
  rw [if_neg hmax]
  obtain ⟨hpos, hb⟩ := not_or.1 hmax
  cases hf : m.fetch with
  | none => exact .inl ⟨rfl, .inr (.inr rfl)⟩
  | some f =>
    obtain ⟨new, hc⟩ := FetchState.claimFrom_spec peer max now f.pieces 0 f.inflight []
    dsimp only
    generalize FetchState.claimFrom peer max now f.pieces 0 f.inflight [] = r at hc ⊢
    obtain ⟨inflight, out⟩ := r
    obtain rfl : out = new := hc.result
    exact .inr ⟨f, out, inflight, by simpa using hb, rfl, by omega, hc, rfl⟩

/-- When no slot is free, nothing is in flight. -/
lemma received_idle {f : FetchState} (h : f.Sound)
    (hmiss : none ∉ (received f peer piece data).pieces) (p : Nat) :
    (f.inflight.erase piece).lookup p = none := by
  cases hl : (f.inflight.erase piece).lookup p with
  | none => rfl
  | some inf =>
    obtain ⟨hne, hl⟩ := lookup_erase_cases hl
    have hfree := h.free p inf hl
    refine absurd (mem_of_getElem? (i := p) ?_) hmiss
    simpa [received, getElem?_set_ne (Ne.symm hne)] using hfree

lemma onData_inflightAt (h : ∀ f, m.fetch = some f → f.Sound) (peer : PeerAddr) (piece : Nat)
    (data : Bytes) (totalSize : Option Int) (watched : Bool) (hinf : m.inflightAt p = some inf)
    (hne : p ≠ piece ∨ inf.peer ≠ peer) :
    (m.onData sha1 peer piece data totalSize watched).2.1.inflightAt p = some inf := by
  rcases onData_cases sha1 h peer piece data totalSize watched with
    ⟨he, -⟩ | ⟨f, since, hb, hf, hl, hlen, he⟩
  · rwa [he]
  rw [inflightAt, hf, bind_some] at hinf
  have hp : p ≠ piece := by
    rcases hne with hne | hne
    · exact hne
    · rintro rfl
      rw [hl] at hinf
      cases hinf
      exact absurd rfl hne
  have hlook : (f.inflight.erase piece).lookup p = some inf := by
    rwa [lookup_erase_ne hp]
  rw [he]
  rcases m.fill_cases sha1 (received f peer piece data) watched with
    ⟨hmiss, he'⟩ | ⟨hmiss, blamed, he'⟩ | ⟨hmiss, hsum, he'⟩
  · rw [he']
    exact hlook
  all_goals
    rw [received_idle (h f hf) hmiss p] at hlook
    cases hlook

end

lemma onReject_inflightAt (hinf : m.inflightAt p = some inf)
    (hne : p ≠ piece ∨ inf.peer ≠ peer) : (m.onReject peer piece).inflightAt p = some inf := by
  unfold MetadataStore.onReject
  cases hf : m.fetch with
  | none => exact hinf
  | some f =>
    rw [inflightAt, hf, bind_some] at hinf
    dsimp only
    split_ifs with hany
    · have hp : p ≠ piece := by
        rcases hne with hne | hne
        · exact hne
        · rintro rfl
          simp [hinf, hne] at hany
      rwa [inflightAt, bind_some, lookup_erase_ne hp]
    · rwa [inflightAt, hf, bind_some]

lemma onPeerGone_inflightAt (hinf : m.inflightAt p = some inf)
    (hne : inf.peer ≠ peer) : (m.onPeerGone peer).inflightAt p = some inf := by
  unfold MetadataStore.onPeerGone
  cases hf : m.fetch with
  | none => exact hinf
  | some f =>
    rw [inflightAt, hf, bind_some] at hinf
    exact lookup_retain.2 ⟨hinf, by simpa using hne⟩

lemma releaseTimeouts_inflightAt {now p : Nat} (hinf : m.inflightAt p = some inf)
    (hne : timedOut now inf.since = false) : (m.releaseTimeouts now).2.inflightAt p = some inf := by
  unfold MetadataStore.releaseTimeouts
  cases hf : m.fetch with
  | none => exact hinf
  | some f =>
    rw [inflightAt, hf, bind_some] at hinf
    exact lookup_retain.2 ⟨hinf, by simpa using hne⟩

lemma claimRequests_inflightAt {max now p : Nat} (hinf : m.inflightAt p = some inf) :
    (m.claimRequests peer max now).2.inflightAt p = some inf := by
  rcases m.claimRequests_cases peer max now with
    ⟨he, -⟩ | ⟨f, new, inflight, hb, hf, -, hc, he⟩
  · rwa [he]
  · rw [inflightAt, hf, bind_some] at hinf
    rw [he, inflightAt, bind_some, hc.lookup p, if_neg fun hp => ?_, hinf]
    obtain ⟨k, rfl, -, hl⟩ := hc.free p hp
    rw [hinf] at hl
    cases hl

lemma claimRequests_claimed {max now p : Nat} (hp : p ∈ (m.claimRequests peer max now).1) :
    (m.claimRequests peer max now).2.inflightAt p = some { peer, since := now } := by
  rcases m.claimRequests_cases peer max now with
    ⟨he, -⟩ | ⟨f, new, inflight, hb, hf, -, hc, he⟩
  · rw [he] at hp
    cases hp
  · rw [he] at hp ⊢
    rw [inflightAt, bind_some, hc.lookup p, if_pos hp]

lemma adoptSize_inflightAt {size : Int}
    (hinf : m.inflightAt p = some inf) : (m.adoptSize size).2.inflightAt p = some inf := by
  unfold MetadataStore.adoptSize
  split
  · exact hinf
  split
  · exact hinf
  · exact hinf
  · rename_i hf
    simp [inflightAt, hf] at hinf

end MetadataStore

namespace Ledger

open MetadataStore

/-- What holds of the store in every state. -/
structure Sound (sha1 : Bytes → Digest) (infoHash : Digest) (l : Ledger) : Prop where
  hash : l.store.infoHash = infoHash
  digest : ∀ bytes, l.store.infoBytes = some bytes → sha1 bytes = infoHash
  done : l.store.infoBytes.isSome → l.store.fetch = none
  fired : l.store.completed = [] ∨
    ∃ bytes, l.store.infoBytes = some bytes ∧ l.store.completed = [bytes]
  fetch : ∀ f, l.store.fetch = some f → f.Sound
  /-- What peers were given is what is in flight. -/
  asked : ∀ p peer, (p, peer) ∈ l.asked ↔ ∃ since, l.store.inflightAt p = some { peer, since }

variable {sha1 : Bytes → Digest} {infoHash : Digest} {l l' : Ledger} {c : StoreCall}

lemma Sound.new (sha1 : Bytes → Digest) (infoHash : Digest) :
    (Ledger.new infoHash).Sound sha1 infoHash := by
  refine ⟨rfl, ?_, ?_, .inl rfl, ?_, ?_⟩ <;>
    simp [Ledger.new, MetadataStore.new, inflightAt]

section

variable (h : l.Sound sha1 infoHash)
include h

/-- A change of what is in flight. -/
lemma Sound.withFetch {f : FetchState} {asked : List (Nat × PeerAddr)}
    (hb : l.store.infoBytes = none) (hf : f.Sound)
    (hasked : ∀ p peer, (p, peer) ∈ asked ↔ ∃ since, f.inflight.lookup p = some { peer, since }) :
    Sound sha1 infoHash { store := { l.store with fetch := some f }, asked } := by
  refine ⟨h.hash, h.digest, fun hs => ?_, h.fired, fun f' hf' => ?_, hasked⟩
  · simp [hb] at hs
  · cases hf'
    exact hf

lemma Sound.infoBytes_none {f : FetchState} (hf : l.store.fetch = some f) :
    l.store.infoBytes = none := by
  by_contra hb
  have := h.done (isSome_iff_ne_none.2 hb)
  rw [hf] at this
  cases this

lemma Sound.asked_iff {f : FetchState} (hf : l.store.fetch = some f) (p : Nat) (peer : PeerAddr) :
    (p, peer) ∈ l.asked ↔ ∃ since, f.inflight.lookup p = some { peer, since } := by
  rw [h.asked p peer, inflightAt, hf]
  rfl

lemma Sound.asked_nil (hf : l.store.fetch = none) : l.asked = [] := by
  refine eq_nil_iff_forall_not_mem.2 fun ⟨p, peer⟩ hmem => ?_
  obtain ⟨since, hs⟩ := (h.asked p peer).1 hmem
  simp [inflightAt, hf] at hs

/-- What a peer was not given is not taken back. -/
lemma Sound.asked_keep {piece : Nat} {peer : PeerAddr}
    (hne : ∀ since, l.store.inflightAt piece ≠ some { peer, since }) :
    l.asked.filter (· ≠ (piece, peer)) = l.asked := by
  refine filter_eq_self.2 fun x hmem => ?_
  rw [decide_eq_true_eq]
  rintro rfl
  obtain ⟨since, hs⟩ := (h.asked piece peer).1 hmem
  exact hne since hs

/-- Nothing to take back when no fetch runs. -/
lemma Sound.idle (hf : l.store.fetch = none) (q : Nat × PeerAddr → Bool) :
    Sound sha1 infoHash { l with asked := l.asked.filter q } := by
  have hnil : l.asked.filter q = l.asked := by rw [h.asked_nil hf, filter_nil]
  rw [hnil]
  exact h

lemma Sound.adoptSize (size : Int) :
    Sound sha1 infoHash { l with store := (l.store.adoptSize size).2 } := by
  unfold MetadataStore.adoptSize
  split
  · exact h
  rename_i hsize
  split
  · exact h
  · exact h
  · rename_i hb hf
    refine h.withFetch hb (.new (by omega)) fun p peer => ?_
    rw [h.asked_nil hf]
    simp [FetchState.new]

lemma Sound.claimRequests (peer : PeerAddr) (max now : Nat) :
    Sound sha1 infoHash
      { store := (l.store.claimRequests peer max now).2
        asked := l.asked ++ (l.store.claimRequests peer max now).1.map fun p => (p, peer) } := by
  rcases l.store.claimRequests_cases peer max now with
    ⟨he, -⟩ | ⟨f, new, inflight, hb, hf, -, hc, he⟩
  · rw [he]
    simpa using h
  rw [he]
  refine h.withFetch hb ((h.fetch f hf).claim hc) fun p peer' => ?_
  rw [mem_append, h.asked_iff hf, hc.lookup p]
  constructor
  · rintro (⟨since, hl⟩ | hnew)
    · refine ⟨since, ?_⟩
      rw [if_neg fun hp => ?_, hl]
      obtain ⟨k, rfl, -, hl'⟩ := hc.free p hp
      rw [hl] at hl'
      cases hl'
    · obtain ⟨q, hq, heq⟩ := List.mem_map.1 hnew
      obtain ⟨rfl, rfl⟩ := Prod.mk.inj heq
      exact ⟨now, by rw [if_pos hq]⟩
  · rintro ⟨since, hl⟩
    split_ifs at hl with hp
    · cases hl
      exact .inr (List.mem_map.2 ⟨p, hp, rfl⟩)
    · exact .inl ⟨since, hl⟩

lemma Sound.fill {peer : PeerAddr} {piece since : Nat} {data : Bytes}
    {f : FetchState} (hb : l.store.infoBytes = none) (hf : l.store.fetch = some f)
    (hl : f.inflight.lookup piece = some { peer, since })
    (hlen : f.pieceLen piece = some data.length) (watched : Bool) :
    let r := l.store.fill sha1 (received f peer piece data) watched
    settles r.1 ∧
      Sound sha1 infoHash { store := r.2.1, asked := l.asked.filter (· ≠ (piece, peer)) } := by
  -- the other pieces stay with the peers they were given to
  have hasked : ∀ p peer', (p, peer') ∈ l.asked.filter (· ≠ (piece, peer)) ↔
      ∃ since, (f.inflight.erase piece).lookup p = some { peer := peer', since } := by
    intro p peer'
    rw [mem_filter, h.asked_iff hf]
    rcases eq_or_ne p piece with rfl | hne
    · rw [lookup_erase, hl]
      simp
      tauto
    · rw [lookup_erase_ne hne]
      simp [hne]
  rcases l.store.fill_cases sha1 (received f peer piece data) watched with
    ⟨hmiss, he⟩ | ⟨hmiss, blamed, he⟩ | ⟨hmiss, hsum, he⟩
  · rw [he]
    exact ⟨rfl, h.withFetch hb ((h.fetch f hf).fill hlen hmiss) hasked⟩
  all_goals
    rw [he]
    have hidle := received_idle (h.fetch f hf) hmiss
    have hnone : ∀ p peer', (p, peer') ∉ l.asked.filter (· ≠ (piece, peer)) := by
      intro p peer' hmem
      obtain ⟨since, hs⟩ := (hasked p peer').1 hmem
      rw [hidle p] at hs
      cases hs
  · refine ⟨rfl, h.hash, h.digest, fun _ => rfl, h.fired, fun f hf => (by cases hf),
      fun p peer' => ?_⟩
    simpa [inflightAt] using hnone p peer'
  · refine ⟨rfl, h.hash, fun bytes hbytes => ?_, fun _ => rfl, ?_, fun f hf => (by cases hf),
      fun p peer' => ?_⟩
    · cases hbytes
      exact hsum.trans h.hash
    · have hfired : l.store.completed = [] := by
        rcases h.fired with hc | ⟨bytes, hbytes, -⟩
        · exact hc
        · rw [hb] at hbytes
          cases hbytes
      cases watched
      · exact .inl hfired
      · exact .inr ⟨_, rfl, by simp [hfired]⟩
    · simpa [inflightAt] using hnone p peer'

lemma Sound.onData (peer : PeerAddr) (piece : Nat) (data : Bytes)
    (totalSize : Option Int) (watched : Bool) :
    let r := l.store.onData sha1 peer piece data totalSize watched
    Sound sha1 infoHash
      { store := r.2.1
        asked := if settles r.1 then l.asked.filter (· ≠ (piece, peer)) else l.asked } := by
  intro r
  rcases onData_cases sha1 h.fetch peer piece data totalSize watched with
    ⟨he, hfree⟩ | ⟨f, since, hb, hf, hl, hlen, he⟩
  · rw [he]
    split_ifs with hs
    · rw [h.asked_keep fun since => by simp [hfree hs]]
      exact h
    · exact h
  · obtain ⟨hs, hsound⟩ := h.fill hb hf hl hlen watched
    rw [show r = _ from he, if_pos hs]
    exact hsound

/-- Calls that only take pieces back. -/
lemma Sound.shrink {f : FetchState} (hf : l.store.fetch = some f) {inflight : Inflights}
    {q : Nat × PeerAddr → Bool}
    (hsub : ∀ p inf, inflight.lookup p = some inf ↔
      f.inflight.lookup p = some inf ∧ q (p, inf.peer)) :
    Sound sha1 infoHash
      { store := { l.store with fetch := some { f with inflight } }, asked := l.asked.filter q } := by
  refine h.withFetch (h.infoBytes_none hf)
    ((h.fetch f hf).shrink fun p inf hl => ((hsub p inf).1 hl).1) fun p peer => ?_
  rw [mem_filter, h.asked_iff hf]
  simp only [hsub]
  tauto

lemma Sound.onReject (peer : PeerAddr) (piece : Nat) :
    Sound sha1 infoHash
      { store := l.store.onReject peer piece, asked := l.asked.filter (· ≠ (piece, peer)) } := by
  unfold MetadataStore.onReject
  cases hf : l.store.fetch with
  | none =>
    rw [h.asked_keep fun since => by simp [inflightAt, hf]]
    exact h
  | some f =>
    dsimp only
    split_ifs with hany
    · obtain ⟨inf, hl, hp⟩ := any_eq_true _ _ |>.mp hany
      refine h.shrink hf fun p inf' => ?_
      rcases eq_or_ne p piece with rfl | hne
      · rw [lookup_erase, hl]
        simp only [reduceCtorEq, some.injEq, ne_eq, decide_not,
          Bool.not_eq_eq_eq_not, Bool.not_true, decide_eq_false_iff_not, false_iff, not_and, not_not]
        rintro rfl
        simpa using hp
      · rw [lookup_erase_ne hne]
        simp [hne]
    · rw [h.asked_keep fun since hs => hany ?_]
      · exact h
      · rw [inflightAt, hf] at hs
        have hs : f.inflight.lookup piece = some { peer, since } := hs
        simp [hs]

lemma Sound.onPeerGone (peer : PeerAddr) :
    Sound sha1 infoHash
      { store := l.store.onPeerGone peer, asked := l.asked.filter (·.2 ≠ peer) } := by
  unfold MetadataStore.onPeerGone
  cases hf : l.store.fetch with
  | none => exact h.idle hf _
  | some f => exact h.shrink hf fun p inf => lookup_retain

lemma Sound.releaseTimeouts (now : Nat) :
    Sound sha1 infoHash
      { store := (l.store.releaseTimeouts now).2
        asked := l.asked.filter (·.1 ∉ (l.store.releaseTimeouts now).1) } := by
  unfold MetadataStore.releaseTimeouts
  cases hf : l.store.fetch with
  | none => exact h.idle hf _
  | some f =>
    refine h.shrink hf fun p inf => ?_
    rw [lookup_retain]
    refine and_congr_right fun hl => ?_
    -- a piece is released when its request has timed out
    have hmem : p ∈ (f.inflight.entries.filter fun x =>
        timedOut now x.2.since).map (·.1) ↔
        timedOut now inf.since := by
      rw [List.mem_map]
      constructor
      · rintro ⟨⟨p', inf'⟩, hx, rfl⟩
        obtain ⟨hx, ht⟩ := mem_filter.1 hx
        have hl' := mem_lookup_iff.2 hx
        rw [mem_def, hl] at hl'
        cases hl'
        exact ht
      · intro ht
        exact ⟨⟨p, inf⟩, mem_filter.2 ⟨mem_lookup_iff.1 hl, ht⟩, rfl⟩
    simp [hmem]

variable (hs : l.step sha1 c = some l')
include hs

lemma Sound.step : l'.Sound sha1 infoHash := by
  cases c with
  | adoptSize size =>
    cases hs
    exact h.adoptSize size
  | claimRequests peer max now =>
    cases hs
    exact h.claimRequests peer max now
  | onData peer piece data totalSize watched =>
    cases hs
    exact h.onData peer piece data totalSize watched
  | onReject peer piece =>
    cases hs
    exact h.onReject peer piece
  | onPeerGone peer =>
    cases hs
    exact h.onPeerGone peer
  | releaseTimeouts now =>
    cases hs
    exact h.releaseTimeouts now

end

end Ledger

end BitRev
