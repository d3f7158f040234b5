import BitRev.Metadata.Store

/-!
# The metadata sessions of a swarm

`UtMetadata` (`extension/ut_metadata.rs`): the `ut_metadata` extension of each connection, all
working on the one `MetadataStore` of the torrent. A session adopts the size its peer advertises,
claims pieces from the store when it is ticked or answered, and keeps a copy of what it asked for
with a clock reading of its own. What the extension handshakes of a peer add up to is
`PeerExtensionInfo` (`extension/handshake.rs`).

Payloads are given as the message they decode to. A call of a session is one step; within it the
clock is read more than once.
-/

namespace BitRev

open MetadataStore List Option AList Prod Assoc

/-- What a handshake says about `ut_metadata`: its entry of `m`, and `metadata_size`. -/
structure ExtensionHandshake where
  utMetadata : Option Int := none
  metadataSize : Option Int := none

/-- `decode` drops a size that is out of bounds. -/
def ExtensionHandshake.decoded (utMetadata metadataSize : Option Int) : ExtensionHandshake :=
  { utMetadata, metadataSize := metadataSize.filter fun size => 1 ≤ size ∧ size ≤ maxMetadataSize }

structure PeerExtensionInfo where
  utMetadata : Option UInt8 := none
  metadataSize : Option Int := none
  deriving DecidableEq

namespace PeerExtensionInfo

def merge (info : PeerExtensionInfo) (hs : ExtensionHandshake) : PeerExtensionInfo :=
  { utMetadata :=
      match hs.utMetadata with
      | none => info.utMetadata
      | some id =>
        if id = 0 then none
        else if 0 ≤ id ∧ id < 256 then some id.toNat.toUInt8
        else info.utMetadata
    metadataSize := hs.metadataSize.or info.metadataSize }

def peerExtId (info : PeerExtensionInfo) : Option UInt8 := info.utMetadata.filter (· ≠ 0)

end PeerExtensionInfo

inductive UtMetadataMessage where
  | request (piece : Nat)
  | data (piece : Nat) (totalSize : Option Int) (data : Bytes)
  | reject (piece : Nat)
  deriving DecidableEq

/-- The `ut_metadata` extension of a connection to `peer`. -/
structure UtMetadata where
  peer : PeerAddr
  /-- What the peer's handshakes said, kept by the connection. -/
  info : PeerExtensionInfo := {}
  peerSupports : Bool := false
  peerSize : Option Int := none
  inflight : AList fun _ : Nat => Nat := ∅
  servedThisWindow : Nat := 0
  disconnect : Bool := false

namespace UtMetadata

def metadataPipeline : Nat := 2
def maxServePerWindow : Nat := 4

variable (u : UtMetadata)

/-- Claim pieces; the store reads the clock at `claimed`, the session at `now`. -/
def requestMore (m : MetadataStore) (claimed now : Nat) :
    List UtMetadataMessage × UtMetadata × MetadataStore :=
  if !u.peerSupports || m.infoBytes.isSome then ([], u, m)
  else if u.peerSize.isNone then ([], u, m)
  else
    let want := metadataPipeline - u.inflight.entries.length
    let r := m.claimRequests u.peer want claimed
    (r.1.map .request, { u with inflight := r.1.foldl (fun i p => i.insert p now) u.inflight }, r.2)

def expireLocal (m : MetadataStore) (now : Nat) : UtMetadata × MetadataStore :=
  ({ u with inflight := Assoc.retain (fun _ since => !timedOut now since) u.inflight },
    (m.releaseTimeouts now).2)

def onHandshake (m : MetadataStore) (info : PeerExtensionInfo) : UtMetadata × MetadataStore :=
  let u := { u with info, peerSupports := info.peerExtId.isSome }
  if !u.peerSupports then ({ u with peerSize := none }, m)
  else
    match info.metadataSize with
    | none => (u, m)
    | some size =>
      if m.infoBytes.isNone then
        let r := m.adoptSize size
        ({ u with peerSize := r.1.map (↑) }, r.2)
      else ({ u with peerSize := some size }, m)

def onMessage (sha1 : Bytes → Digest) (u : UtMetadata) (m : MetadataStore)
    (msg : Option UtMetadataMessage) (watched : Bool) (claimed now : Nat) :
    List UtMetadataMessage × UtMetadata × MetadataStore :=
  if u.disconnect then ([], u, m)
  else
    match msg with
    | none => ([], { u with disconnect := true }, m)
    | some (.request piece) =>
      if u.servedThisWindow ≥ maxServePerWindow then ([.reject piece], u, m)
      else
        let u := { u with servedThisWindow := u.servedThisWindow + 1 }
        match m.servePiece piece with
        | some (data, totalSize) => ([.data piece (some totalSize) data], u, m)
        | none => ([.reject piece], u, m)
    | some (.reject piece) =>
      { u with inflight := u.inflight.erase piece }.requestMore (m.onReject u.peer piece) claimed now
    | some (.data piece totalSize data) =>
      if piece ∉ u.inflight then ([], { u with disconnect := true }, m)
      else
        let u := { u with inflight := u.inflight.erase piece }
        let r := m.onData sha1 u.peer piece data totalSize watched
        match r.1 with
        | .invalid | .unrequested => ([], { u with disconnect := true }, r.2.1)
        | .hashMismatch | .complete | .alreadyComplete => ([], u, r.2.1)
        | .accepted | .duplicate => u.requestMore r.2.1 claimed now

/-- A tick; the clock is read at `now`, then by the store and by the session as in
`requestMore`. -/
def onTick (m : MetadataStore) (now claimed asked : Nat) :
    List UtMetadataMessage × UtMetadata × MetadataStore :=
  let u := { u with servedThisWindow := 0 }
  if u.disconnect || !u.peerSupports then ([], u, m)
  else
    let r := u.expireLocal m now
    r.1.requestMore r.2 claimed asked

end UtMetadata

structure MetadataSwarm where
  store : MetadataStore
  sessions : AList fun _ : Nat => UtMetadata := ∅
  clock : Nat := 0

inductive MetadataAct where
  | connect (k : Nat) (peer : PeerAddr)
  | handshake (k : Nat) (utMetadata metadataSize : Option Int)
  | message (k : Nat) (msg : Option UtMetadataMessage) (watched : Bool) (claimed now : Nat)
  | tick (k : Nat) (now claimed asked : Nat)
  | leave (k : Nat)

namespace MetadataSwarm

def new (infoHash : Digest) : MetadataSwarm := { store := .new infoHash }

/-- What a session's call leaves behind. -/
def put (w : MetadataSwarm) (k clock : Nat) (u : UtMetadata) (store : MetadataStore) :
    MetadataSwarm :=
  { store, sessions := w.sessions.insert k u, clock }

def step (sha1 : Bytes → Digest) (w : MetadataSwarm) : MetadataAct → Option MetadataSwarm
  | .connect k peer =>
    if k ∈ w.sessions then none else some { w with sessions := w.sessions.insert k { peer } }
  | .handshake k utMetadata metadataSize =>
    (w.sessions.lookup k).map fun u =>
      let r := u.onHandshake w.store (u.info.merge (.decoded utMetadata metadataSize))
      w.put k w.clock r.1 r.2
  | .message k msg watched claimed now =>
    if w.clock ≤ claimed ∧ claimed ≤ now then
      (w.sessions.lookup k).map fun u =>
        let r := u.onMessage sha1 w.store msg watched claimed now
        w.put k now r.2.1 r.2.2
    else none
  | .tick k now claimed asked =>
    if w.clock ≤ now ∧ now ≤ claimed ∧ claimed ≤ asked then
      (w.sessions.lookup k).map fun u =>
        let r := u.onTick w.store now claimed asked
        w.put k asked r.2.1 r.2.2
    else none
  | .leave k =>
    (w.sessions.lookup k).map fun u =>
      { w with store := w.store.onPeerGone u.peer, sessions := w.sessions.erase k }

end MetadataSwarm

/-! ## What a call of a session does to the store -/

/-- The metadata stays complete, a fetch goes on until it is, and its size stays `L`. -/
structure MetadataStore.Advances (L : Nat) (m m' : MetadataStore) : Prop where
  bytes : m'.infoBytes = none → m.infoBytes = none
  fetch : m'.infoBytes = none → m.fetch.isSome → m'.fetch.isSome
  size : (∀ f, m.fetch = some f → f.size = L) → ∀ f, m'.fetch = some f → f.size = L

namespace MetadataStore.Advances

variable {L : Nat} {m m' m'' : MetadataStore}

lemma refl (m : MetadataStore) : Advances L m m := ⟨id, fun _ h => h, fun h => h⟩

lemma trans (h : Advances L m m') (h' : Advances L m' m'') : Advances L m m'' :=
  ⟨fun hb => h.bytes (h'.bytes hb), fun hb hf => h'.fetch hb (h.fetch (h'.bytes hb) hf),
    fun hs => h'.size (h.size hs)⟩

/-- A call that only changes what is in flight. -/
lemma of_sizes (hb : m'.infoBytes = m.infoBytes)
    (hs : m'.fetch.map (·.size) = m.fetch.map (·.size)) : Advances L m m' := by
  refine ⟨fun h => hb ▸ h, fun _ hf => ?_, fun hL f hf => ?_⟩
  · rw [← isSome_map (f := FetchState.size), hs, isSome_map]
    exact hf
  · rw [hf, map_some, eq_comm, map_eq_some_iff] at hs
    obtain ⟨f', hf', hsize⟩ := hs
    exact hsize ▸ hL f' hf'

section

variable (m : MetadataStore)

lemma claimRequests (peer : PeerAddr) (max now : Nat) :
    Advances L m (m.claimRequests peer max now).2 := by
  rcases m.claimRequests_cases peer max now with
    ⟨he, -⟩ | ⟨f, new, inflight, -, hf, -, -, he⟩
  · rw [he]
    exact refl m
  · rw [he]
    exact of_sizes rfl (by rw [hf]; rfl)

lemma onReject (peer : PeerAddr) (piece : Nat) : Advances L m (m.onReject peer piece) := by
  unfold MetadataStore.onReject
  cases hf : m.fetch with
  | none => exact refl m
  | some f =>
    dsimp only
    split
    · exact of_sizes rfl (by rw [hf]; rfl)
    · exact refl m

lemma onPeerGone (peer : PeerAddr) : Advances L m (m.onPeerGone peer) := by
  unfold MetadataStore.onPeerGone
  cases hf : m.fetch with
  | none => exact refl m
  | some f => exact of_sizes rfl (by rw [hf]; rfl)

lemma releaseTimeouts (now : Nat) : Advances L m (m.releaseTimeouts now).2 := by
  unfold MetadataStore.releaseTimeouts
  cases hf : m.fetch with
  | none => exact refl m
  | some f => exact of_sizes rfl (by rw [hf]; rfl)

end

lemma onData {sha1 : Bytes → Digest} (h : ∀ f, m.fetch = some f → f.Sound) {peer : PeerAddr}
    {piece : Nat} {data : Bytes} {totalSize : Option Int} {watched : Bool}
    (hok : (m.onData sha1 peer piece data totalSize watched).1 ≠ .hashMismatch) :
    Advances L m (m.onData sha1 peer piece data totalSize watched).2.1 := by
  rcases onData_cases sha1 h peer piece data totalSize watched with
    ⟨he, -⟩ | ⟨f, since, hb, hf, hl, hlen, he⟩
  · rw [he]
    exact refl m
  rw [he] at hok ⊢
  rcases m.fill_cases sha1 (received f peer piece data) watched with
    ⟨hmiss, he'⟩ | ⟨hmiss, blamed, he'⟩ | ⟨hmiss, hsum, he'⟩
  · rw [he']
    exact of_sizes rfl (by rw [hf]; rfl)
  · rw [he'] at hok
    exact absurd rfl hok
  · rw [he']
    exact ⟨fun h => (by cases h), fun h => (by cases h), fun _ f hf => (by cases hf)⟩

lemma adoptSize {size : Int} (h : m.infoBytes = none → m.fetch = none → size.toNat = L) :
    Advances L m (m.adoptSize size).2 := by
  unfold MetadataStore.adoptSize
  split
  · exact refl m
  split
  · exact refl m
  · exact refl m
  · rename_i hb hf
    refine ⟨fun _ => hb, fun _ hs => rfl, fun _ f hf' => ?_⟩
    cases hf'
    exact h hb hf

end MetadataStore.Advances

/-- A store in some state of the interleavings of its calls. -/
def MetadataStore.Sound (sha1 : Bytes → Digest) (infoHash : Digest) (m : MetadataStore) : Prop :=
  ∃ asked, Ledger.Sound sha1 infoHash { store := m, asked }

namespace UtMetadata

/-- What a session thinks it has asked for is in flight at its peer, or timed out. -/
def Kept (clock : Nat) (u : UtMetadata) (m : MetadataStore) : Prop :=
  ∀ p since, u.inflight.lookup p = some since →
    (∃ t, m.inflightAt p = some { peer := u.peer, since := t }) ∨ timedOut clock since

lemma timedOut_mono {clock now since : Nat} (h : clock ≤ now) (ht : timedOut clock since) :
    timedOut now since := by
  simp only [timedOut, decide_eq_true_eq] at ht ⊢
  omega

/-- Nothing of the session's is taken from it. -/
lemma Kept.frame {clock now : Nat} {u : UtMetadata} {m m' : MetadataStore}
    (h : u.Kept clock m) (hle : clock ≤ now)
    (hm : ∀ p t, m.inflightAt p = some { peer := u.peer, since := t } →
      m'.inflightAt p = some { peer := u.peer, since := t }) : u.Kept now m' := by
  intro p since hl
  rcases h p since hl with ⟨t, ht⟩ | ht
  · exact .inl ⟨t, hm p t ht⟩
  · exact .inr (timedOut_mono hle ht)

variable {u : UtMetadata} {m : MetadataStore}

lemma lookup_foldl_insert (new : List Nat) (now : Nat) (i : AList fun _ : Nat => Nat) (p : Nat) :
    (new.foldl (fun i p => i.insert p now) i).lookup p =
      if p ∈ new then some now else i.lookup p := by
  induction new generalizing i with
  | nil => rfl
  | cons q new ih =>
    rw [foldl_cons, ih]
    rcases eq_or_ne p q with rfl | hne
    · simp [lookup_insert]
    · simp [hne, lookup_insert_ne hne]

/-- `request_more` does nothing, or files what the store gives it. -/
lemma requestMore_cases (u : UtMetadata) (m : MetadataStore) (claimed now : Nat) :
    (u.requestMore m claimed now = ([], u, m) ∧
      (u.peerSupports = false ∨ m.infoBytes.isSome ∨ u.peerSize = none)) ∨
    let r := m.claimRequests u.peer (metadataPipeline - u.inflight.entries.length) claimed
    u.requestMore m claimed now = (r.1.map .request,
      { u with inflight := r.1.foldl (fun i p => i.insert p now) u.inflight }, r.2) := by
  unfold requestMore
  by_cases hs : (!u.peerSupports || m.infoBytes.isSome)
  · rw [if_pos hs]
    refine .inl ⟨rfl, ?_⟩
    simp only [Bool.or_eq_true, Bool.not_eq_true'] at hs
    exact hs.imp_right .inl
  rw [if_neg hs]
  by_cases hz : u.peerSize.isNone
  · rw [if_pos hz]
    exact .inl ⟨rfl, .inr (.inr (by simpa using hz))⟩
  · rw [if_neg hz]
    exact .inr rfl

/-- The session's view of its peer is that of the peer's handshakes: it adopted the size `L` if the
peer advertised it, and what it adopted is being fetched. -/
structure Adopted (L : Nat) (u : UtMetadata) (m : MetadataStore) : Prop where
  supports : u.peerSupports = u.info.peerExtId.isSome
  size : m.infoBytes = none → u.peerSupports → u.info.metadataSize = some (L : Int) →
    0 < L → (L : Int) ≤ maxMetadataSize → u.peerSize.isSome
  fetch : m.infoBytes = none → u.peerSize.isSome → m.fetch.isSome

/-- The calls of a session other than its handshakes leave its view alone. -/
structure SameView (u u' : UtMetadata) : Prop where
  peer : u'.peer = u.peer
  info : u'.info = u.info
  peerSupports : u'.peerSupports = u.peerSupports
  peerSize : u'.peerSize = u.peerSize

lemma Adopted.frame {L : Nat} {u' : UtMetadata} {m' : MetadataStore} (h : u.Adopted L m)
    (hu : u.SameView u') (hm : m.Advances L m') : u'.Adopted L m' := by
  refine ⟨?_, fun hb => ?_, fun hb => ?_⟩
  · rw [hu.peerSupports, hu.info, h.supports]
  · rw [hu.peerSupports, hu.info, hu.peerSize]
    exact h.size (hm.bytes hb)
  · rw [hu.peerSize]
    exact fun hs => hm.fetch hb (h.fetch (hm.bytes hb) hs)

/-- What a call of the session of `u` leaves: the session `u'` with the store `m'`, at `now`.
The sessions in `O` with other peers lose nothing by it. -/
structure Call (O : UtMetadata → Prop) (L : Nat) (sha1 : Bytes → Digest) (infoHash : Digest)
    (clock now : Nat) (u u' : UtMetadata) (m m' : MetadataStore) : Prop where
  peer : u'.peer = u.peer
  sound : m'.Sound sha1 infoHash
  advances : m.Advances L m'
  kept : u.Kept clock m → u'.Kept now m'
  others : ∀ v, O v → v.peer ≠ u.peer → v.Kept clock m → v.Kept now m'
  adopted : (∀ f, m.fetch = some f → f.size = L) → u.Adopted L m → u'.Adopted L m'

variable {O : UtMetadata → Prop} {L : Nat} {sha1 : Bytes → Digest} {infoHash : Digest}
  {clock now : Nat}

lemma Call.trans {mid : Nat} {u₁ u₂ : UtMetadata} {m₁ m₂ : MetadataStore}
    (h : Call O L sha1 infoHash clock mid u u₁ m m₁)
    (h' : Call O L sha1 infoHash mid now u₁ u₂ m₁ m₂) :
    Call O L sha1 infoHash clock now u u₂ m m₂ :=
  ⟨h'.peer.trans h.peer, h'.sound, h.advances.trans h'.advances, fun hk => h'.kept (h.kept hk),
    fun v hO hv hk => h'.others v hO (h.peer ▸ hv) (h.others v hO hv hk),
    fun hs ha => h'.adopted (h.advances.size hs) (h.adopted hs ha)⟩

/-- A call that does not touch the store. -/
lemma Call.local (hm : m.Sound sha1 infoHash) (hle : clock ≤ now) {u' : UtMetadata}
    (hu : u.SameView u')
    (hin : ∀ p since, u'.inflight.lookup p = some since → u.inflight.lookup p = some since) :
    Call O L sha1 infoHash clock now u u' m m := by
  refine ⟨hu.peer, hm, .refl m, fun h p since hl => ?_, fun v _ _ h => h.frame hle fun _ _ => id,
    fun _ h => h.frame hu (.refl m)⟩
  rw [hu.peer]
  exact h.frame hle (fun _ _ => id) p since (hin p since hl)

lemma requestMore_call (hm : m.Sound sha1 infoHash) {claimed : Nat} (hle : clock ≤ now) :
    Call O L sha1 infoHash clock now u (u.requestMore m claimed now).2.1 m
      (u.requestMore m claimed now).2.2 := by
  rcases requestMore_cases u m claimed now with ⟨he, -⟩ | he
  · rw [he]
    exact .local hm hle ⟨rfl, rfl, rfl, rfl⟩ fun _ _ => id
  rw [he]
  have hkeep : ∀ p inf, m.inflightAt p = some inf → (m.claimRequests u.peer
      (metadataPipeline - u.inflight.entries.length) claimed).2.inflightAt p = some inf :=
    fun p inf => claimRequests_inflightAt
  have hadv : m.Advances L (m.claimRequests u.peer
    (metadataPipeline - u.inflight.entries.length) claimed).2 := .claimRequests m _ _ _
  refine ⟨rfl, ?_, hadv, fun h p since hl => ?_, fun v _ _ h => h.frame hle fun p t => hkeep p _,
    fun _ h => h.frame ⟨rfl, rfl, rfl, rfl⟩ hadv⟩
  · obtain ⟨asked, hs⟩ := hm
    exact ⟨_, hs.claimRequests _ _ _⟩
  · rw [lookup_foldl_insert] at hl
    split_ifs at hl with hp
    · exact .inl ⟨claimed, claimRequests_claimed hp⟩
    · exact h.frame hle (fun p t => hkeep p _) p since hl

/-- A reject, or data that was taken: the piece leaves the session and the store alike. -/
lemma Call.settle (hle : clock ≤ now) {piece : Nat} {m' : MetadataStore}
    (hm : m'.Sound sha1 infoHash) (hadv : m.Advances L m')
    (hkeep : ∀ p inf, m.inflightAt p = some inf → (p ≠ piece ∨ inf.peer ≠ u.peer) →
      m'.inflightAt p = some inf) :
    Call O L sha1 infoHash clock now u { u with inflight := u.inflight.erase piece } m m' := by
  refine ⟨rfl, hm, hadv, fun h p since hl => ?_, fun v _ hv h => h.frame hle fun p t ht => hkeep p _
    ht (.inr hv), fun _ h => h.frame ⟨rfl, rfl, rfl, rfl⟩ hadv⟩
  obtain ⟨hne, hl⟩ := lookup_erase_cases hl
  rcases h p since hl with ⟨t, ht⟩ | ht
  · exact .inl ⟨t, hkeep p _ ht (.inl hne)⟩
  · exact .inr (timedOut_mono hle ht)

lemma onMessage_call (hm : m.Sound sha1 infoHash) {msg : Option UtMetadataMessage}
    {watched : Bool} {claimed : Nat} (hle : clock ≤ claimed) (hle' : claimed ≤ now)
    (hok : ∀ piece totalSize data, msg = some (.data piece totalSize data) → piece ∈ u.inflight →
      (m.onData sha1 u.peer piece data totalSize watched).1 ≠ .hashMismatch) :
    Call O L sha1 infoHash clock now u (u.onMessage sha1 m msg watched claimed now).2.1 m
      (u.onMessage sha1 m msg watched claimed now).2.2 := by
  have hnow := hle.trans hle'
  unfold onMessage
  split
  · exact .local hm hnow ⟨rfl, rfl, rfl, rfl⟩ fun _ _ => id
  split
  · exact .local hm hnow ⟨rfl, rfl, rfl, rfl⟩ fun _ _ => id
  · split
    · exact .local hm hnow ⟨rfl, rfl, rfl, rfl⟩ fun _ _ => id
    · dsimp only
      split <;> exact .local hm hnow ⟨rfl, rfl, rfl, rfl⟩ fun _ _ => id
  · rename_i piece
    obtain ⟨asked, hs⟩ := hm
    have hs' : (m.onReject u.peer piece).Sound sha1 infoHash := ⟨_, hs.onReject u.peer piece⟩
    have hcall : Call O L sha1 infoHash clock claimed u
        { u with inflight := u.inflight.erase piece } m (m.onReject u.peer piece) :=
      .settle hle hs' (.onReject m _ _) fun p inf => onReject_inflightAt
    exact hcall.trans (requestMore_call hs' hle')
  · rename_i piece totalSize data
    split
    · exact .local hm hnow ⟨rfl, rfl, rfl, rfl⟩ fun _ _ => id
    rename_i hin
    obtain ⟨asked, hs⟩ := hm
    have hs' : (m.onData sha1 u.peer piece data totalSize watched).2.1.Sound sha1 infoHash :=
      ⟨_, hs.onData u.peer piece data totalSize watched⟩
    have hcall : ∀ {mid}, clock ≤ mid → Call O L sha1 infoHash clock mid u
        { u with inflight := u.inflight.erase piece } m
        (m.onData sha1 u.peer piece data totalSize watched).2.1 := fun hle =>
      .settle hle hs' (.onData hs.fetch (hok piece totalSize data rfl (not_not.1 hin)))
        fun p inf => onData_inflightAt sha1 hs.fetch u.peer piece data totalSize watched
    dsimp only
    split
    any_goals exact hcall hnow
    any_goals exact (hcall hle).trans (.local hs' hle' ⟨rfl, rfl, rfl, rfl⟩ fun _ _ => id)
    all_goals exact (hcall hle).trans (requestMore_call hs' hle')

/-- A request of the session times out in the store and in the session alike. -/
def ExpiresWith (m : MetadataStore) (now : Nat) (v : UtMetadata) : Prop :=
  ∀ x ∈ v.inflight.entries, ∀ inf ∈ m.inflightAt x.1, inf.peer = v.peer →
    timedOut now inf.since → timedOut now x.2

instance (m : MetadataStore) (now : Nat) (v : UtMetadata) : Decidable (v.ExpiresWith m now) := by
  unfold ExpiresWith
  infer_instance

/-- After a tick has dropped what timed out, the session's requests are the store's. -/
lemma expireLocal_call (hm : m.Sound sha1 infoHash) (hle : clock ≤ now) (hu : u.ExpiresWith m now) :
    Call (ExpiresWith m now) L sha1 infoHash clock now u (u.expireLocal m now).1 m
      (u.expireLocal m now).2 := by
  obtain ⟨asked, hs⟩ := hm
  have hkeep : ∀ v, ExpiresWith m now v → v.Kept clock m →
      v.Kept now (m.releaseTimeouts now).2 := fun v hv hk p since hl => by
    rcases hk p since hl with ⟨t, ht⟩ | ht
    · cases hto : timedOut now t with
      | true => exact .inr (hv ⟨p, since⟩ (mem_lookup_iff.1 hl) _ ht rfl hto)
      | false => exact .inl ⟨t, releaseTimeouts_inflightAt ht hto⟩
    · exact .inr (timedOut_mono hle ht)
  refine ⟨rfl, ⟨_, hs.releaseTimeouts now⟩, .releaseTimeouts m now, fun h p since hl => ?_,
    fun v hv _ h => hkeep v hv h, fun _ h => h.frame ⟨rfl, rfl, rfl, rfl⟩ (.releaseTimeouts m now)⟩
  exact hkeep u hu h p since (lookup_retain.1 hl).1

lemma onTick_call (hm : m.Sound sha1 infoHash) {mid claimed : Nat} (hle : clock ≤ mid)
    (hle' : mid ≤ claimed) (hle'' : claimed ≤ now) (hu : u.ExpiresWith m mid) :
    Call (ExpiresWith m mid) L sha1 infoHash clock now u (u.onTick m mid claimed now).2.1 m
      (u.onTick m mid claimed now).2.2 := by
  unfold onTick
  dsimp only
  split
  · exact .local hm (by omega) ⟨rfl, rfl, rfl, rfl⟩ fun _ _ => id
  · have hreset : Call (ExpiresWith m mid) L sha1 infoHash clock clock u
        { u with servedThisWindow := 0 } m m := .local hm le_rfl ⟨rfl, rfl, rfl, rfl⟩ fun _ _ => id
    have hexp := expireLocal_call (L := L) (u := { u with servedThisWindow := 0 }) hm hle hu
    exact (hreset.trans hexp).trans (requestMore_call hexp.sound (by omega))

/-- A handshake: the size of a peer is adopted, and starts a fetch only if it is `L`. -/
lemma onHandshake_call (hm : m.Sound sha1 infoHash) {info : PeerExtensionInfo}
    (hok : m.infoBytes = none → m.fetch = none → info.peerExtId.isSome →
      ∀ size, info.metadataSize = some size → size = L) :
    Call O L sha1 infoHash clock clock u (u.onHandshake m info).1 m (u.onHandshake m info).2 := by
  have hsame : ∀ {u' : UtMetadata}, u'.peer = u.peer → u'.inflight = u.inflight →
      (u.Adopted L m → u'.Adopted L m) → Call O L sha1 infoHash clock clock u u' m m := by
    intro u' hp hi ha
    refine ⟨hp, hm, .refl m, fun h p since hl => ?_, fun v _ _ h => h, fun _ => ha⟩
    rw [hp]
    exact h p since (hi ▸ hl)
  unfold onHandshake
  dsimp only
  split
  · rename_i hno
    refine hsame rfl rfl fun _ => ⟨rfl, fun _ hs => ?_, fun _ hs => ?_⟩
    · have hs : info.peerExtId.isSome := hs
      simp [hs] at hno
    · cases hs
  rename_i hyes
  have hyes : info.peerExtId.isSome := isSome_iff_ne_none.2 (by simpa using hyes)
  split
  · rename_i hsz
    refine hsame rfl rfl fun h => ⟨rfl, fun _ _ hi => ?_, h.fetch⟩
    have hi : info.metadataSize = some (L : Int) := hi
    rw [hsz] at hi
    cases hi
  rename_i size hsz
  split
  · rename_i hb
    have hb : m.infoBytes = none := by simpa using hb
    obtain ⟨asked, hs⟩ := hm
    have hadv : m.Advances L (m.adoptSize size).2 := .adoptSize fun hb hf => by
      rw [hok hb hf hyes size hsz]
      rfl
    refine ⟨rfl, ⟨_, hs.adoptSize size⟩, hadv, fun h => h.frame le_rfl fun p t =>
      adoptSize_inflightAt, fun v _ _ h => h.frame le_rfl fun p t => adoptSize_inflightAt, fun hL _
      => ⟨rfl, fun _ _ hi hpos hmax => ?_, fun _ hsome => ?_⟩⟩
    -- the size is `L`: it starts the fetch or is that of the fetch
    · have hi : info.metadataSize = some (L : Int) := hi
      cases hsz.symm.trans hi
      unfold MetadataStore.adoptSize
      rw [if_neg (by omega)]
      cases hf : m.fetch with
      | none => simp [hb]
      | some f => simp [hb, hL f hf]
    -- an answer means a fetch
    · have hsome : ((m.adoptSize size).1.map ((↑) : Nat → Int)).isSome := hsome
      unfold MetadataStore.adoptSize at hsome ⊢
      split at hsome
      · cases hsome
      · rename_i hr
        rw [if_neg hr]
        cases hf : m.fetch with
        | none => simp [hb]
        | some f => simp [hb, hf]
  · rename_i hb
    have hb : m.infoBytes ≠ none := by simpa using hb
    exact hsame rfl rfl fun h => ⟨rfl, fun hn => absurd hn hb, fun hn => absurd hn hb⟩

lemma requestMore_requests {f : FetchState} {p : Nat} (hsup : u.peerSupports)
    (hb : m.infoBytes = none) (hsize : u.peerSize.isSome) (hnone : u.inflight.entries = [])
    (hf : m.fetch = some f) (hp : f.pieces[p]? = some none) (hfree : f.inflight.lookup p = none)
    (claimed asked : Nat) : ∃ piece, .request piece ∈ (u.requestMore m claimed asked).1 := by
  rcases requestMore_cases u m claimed asked with ⟨-, hno⟩ | he
  · simp [hsup, hb, isSome_iff_ne_none.1 hsize] at hno
  rcases m.claimRequests_cases u.peer (metadataPipeline - u.inflight.entries.length) claimed with
    ⟨-, hno⟩ | ⟨f', new, inflight, -, hf', hmax, hc, he'⟩
  · simp [metadataPipeline, hb, hnone, hf] at hno
  · cases hf.symm.trans hf'
    obtain ⟨q, hq⟩ := exists_mem_of_ne_nil new
      (hc.claims hmax p hp (by rwa [zero_add]))
    refine ⟨q, ?_⟩
    rw [he, he']
    exact mem_map.2 ⟨q, hq, rfl⟩

lemma onTick_requests (hm : m.Sound sha1 infoHash) (hk : u.Kept clock m) (ha : u.Adopted L m)
    (hb : m.infoBytes = none) (hidle : ∀ p, m.inflightAt p = none) (hd : u.disconnect = false)
    (hs : u.info.peerExtId.isSome) (hsize : u.info.metadataSize = some (L : Int))
    (hpos : 0 < L) (hmax : (L : Int) ≤ maxMetadataSize) (hle : clock ≤ now) (claimed asked : Nat) :
    ∃ piece, .request piece ∈ (u.onTick m now claimed asked).1 := by
  have hsup : u.peerSupports := ha.supports.trans hs
  have hpeer := ha.size hb hsup hsize hpos hmax
  obtain ⟨f, hf⟩ := isSome_iff_exists.1 (ha.fetch hb hpeer)
  obtain ⟨ledger, hsound⟩ := hm
  -- a slot is free, and its piece is not in flight
  obtain ⟨p, hp⟩ := mem_iff_getElem?.1 (hsound.fetch f hf).missing
  have hfree : f.inflight.lookup p = none := by
    have := hidle p
    rwa [inflightAt, hf] at this
  have htick : u.onTick m now claimed asked =
      ({ u with servedThisWindow := 0 }.expireLocal m now).1.requestMore
        ({ u with servedThisWindow := 0 }.expireLocal m now).2 claimed asked := by
    unfold onTick
    rw [if_neg (by simp [hd, hsup])]
  rw [htick]
  have hrel : (m.releaseTimeouts now).2.fetch = some { f with
      inflight := retain (fun _ inf => !timedOut now inf.since) f.inflight } ∧
      (m.releaseTimeouts now).2.infoBytes = m.infoBytes := by
    simp only [releaseTimeouts, hf, and_self]
  refine requestMore_requests (u := ({ u with servedThisWindow := 0 }.expireLocal m now).1) (p := p)
    hsup (hrel.2.trans hb) hpeer ?_ hrel.1 hp ?_ claimed asked
  -- the session's own requests are gone
  · refine eq_nil_iff_forall_not_mem.2 fun x hmem => ?_
    obtain ⟨p, since⟩ := x
    obtain ⟨hl, ht⟩ := lookup_retain.1 (mem_lookup_iff.2 hmem)
    rcases hk p since hl with ⟨t, hin⟩ | hto
    · rw [hidle p] at hin
      cases hin
    · simp [timedOut_mono hle hto] at ht
  · rw [eq_none_iff_forall_ne_some]
    intro inf hl
    have := (lookup_retain.1 hl).1
    rw [hfree] at this
    cases this

lemma onTick_silent (h : u.peerSize = none ∨ m.fetch = none) (now claimed asked : Nat) :
    (u.onTick m now claimed asked).1 = [] := by
  unfold onTick
  dsimp only
  split
  · rfl
  · rcases requestMore_cases ({ u with servedThisWindow := 0 }.expireLocal m now).1
      ({ u with servedThisWindow := 0 }.expireLocal m now).2 claimed asked with ⟨he, -⟩ | he
    · rw [he]
    · rcases h with h | h
      · simp [requestMore, expireLocal, h]
      · rw [he]
        simp only [expireLocal, releaseTimeouts, h, claimRequests]
        split <;> rfl

end UtMetadata

namespace MetadataSwarm

open UtMetadata

/-- A size that starts a fetch is `L`, no assembled metadata fails its hash, a peer has one
connection, and no tick falls between the timeouts of a request in the store and in the session
that made it. -/
def Fetching (sha1 : Bytes → Digest) (L : Nat) (w : MetadataSwarm) : MetadataAct → Prop
  | .connect _ peer => ∀ x ∈ w.sessions.entries, x.2.peer ≠ peer
  | .handshake k utMetadata metadataSize => ∀ u ∈ w.sessions.lookup k,
    w.store.infoBytes = none → w.store.fetch.isNone →
    let info := u.info.merge (.decoded utMetadata metadataSize)
    info.peerExtId.isSome → ∀ size ∈ info.metadataSize, size = L
  | .message k (some (.data piece totalSize data)) watched _ _ => ∀ u ∈ w.sessions.lookup k,
    piece ∈ u.inflight →
      (w.store.onData sha1 u.peer piece data totalSize watched).1 ≠ .hashMismatch
  | .tick _ now _ _ => ∀ x ∈ w.sessions.entries, x.2.ExpiresWith w.store now
  | _ => True

instance (sha1 : Bytes → Digest) (L : Nat) (w : MetadataSwarm) (a : MetadataAct) :
    Decidable (w.Fetching sha1 L a) := by
  unfold Fetching
  split <;> infer_instance

/-- What holds in every state. -/
structure Live (sha1 : Bytes → Digest) (infoHash : Digest) (L : Nat) (w : MetadataSwarm) :
    Prop where
  sound : w.store.Sound sha1 infoHash
  size : ∀ f, w.store.fetch = some f → f.size = L
  apart : ∀ k k' u u', w.sessions.lookup k = some u → w.sessions.lookup k' = some u' →
    u.peer = u'.peer → k = k'
  kept : ∀ k u, w.sessions.lookup k = some u → u.Kept w.clock w.store
  adopted : ∀ k u, w.sessions.lookup k = some u → u.Adopted L w.store

variable {sha1 : Bytes → Digest} {infoHash : Digest} {L : Nat} {w w' : MetadataSwarm}

lemma Live.new (sha1 : Bytes → Digest) (infoHash : Digest) (L : Nat) :
    (MetadataSwarm.new infoHash).Live sha1 infoHash L := by
  refine ⟨⟨_, Ledger.Sound.new sha1 infoHash⟩, ?_, ?_, ?_, ?_⟩ <;>
    simp [MetadataSwarm.new, MetadataStore.new]

section

variable (h : w.Live sha1 infoHash L)
include h

lemma Live.put {k now : Nat} {u u' : UtMetadata} {m' : MetadataStore} {O : UtMetadata → Prop}
    (hk : w.sessions.lookup k = some u) (hO : ∀ k v, w.sessions.lookup k = some v → O v)
    (hc : Call O L sha1 infoHash w.clock now u u' w.store m') :
    (w.put k now u' m').Live sha1 infoHash L := by
  -- the others have other peers
  have hother : ∀ k' v, k' ≠ k → w.sessions.lookup k' = some v → v.peer ≠ u.peer :=
    fun k' v hne hv hp => hne (h.apart k' k v u hv hk hp)
  refine ⟨hc.sound, hc.advances.size h.size, fun k₁ k₂ u₁ u₂ h₁ h₂ hp => ?_, fun k' v hv => ?_,
    fun k' v hv => ?_⟩
  · rcases lookup_insert_cases h₁ with ⟨rfl, rfl⟩ | ⟨hne₁, hu₁⟩ <;>
      rcases lookup_insert_cases h₂ with ⟨rfl, rfl⟩ | ⟨hne₂, hu₂⟩
    · rfl
    · exact absurd (hp.symm.trans hc.peer) (hother k₂ u₂ hne₂ hu₂)
    · exact absurd (hp.trans hc.peer) (hother k₁ u₁ hne₁ hu₁)
    · exact h.apart k₁ k₂ u₁ u₂ hu₁ hu₂ hp
  · rcases lookup_insert_cases hv with ⟨rfl, rfl⟩ | ⟨hne, hv⟩
    · exact hc.kept (h.kept k' u hk)
    · exact hc.others v (hO k' v hv) (hother k' v hne hv) (h.kept k' v hv)
  · rcases lookup_insert_cases hv with ⟨rfl, rfl⟩ | ⟨hne, hv⟩
    · exact hc.adopted h.size (h.adopted k' u hk)
    · exact (h.adopted k' v hv).frame ⟨rfl, rfl, rfl, rfl⟩ hc.advances

lemma Live.connect {k : Nat} {peer : PeerAddr} (hpeer : ∀ x ∈ w.sessions.entries, x.2.peer ≠ peer) :
    { w with sessions := w.sessions.insert k { peer } }.Live sha1 infoHash L := by
  have hother : ∀ k' v, w.sessions.lookup k' = some v → v.peer ≠ peer :=
    fun k' v hv => hpeer ⟨k', v⟩ (mem_lookup_iff.1 hv)
  refine ⟨h.sound, h.size, fun k₁ k₂ u₁ u₂ h₁ h₂ hp => ?_, fun k' v hv => ?_, fun k' v hv => ?_⟩
  · rcases lookup_insert_cases h₁ with ⟨rfl, rfl⟩ | ⟨-, hu₁⟩ <;>
      rcases lookup_insert_cases h₂ with ⟨rfl, rfl⟩ | ⟨-, hu₂⟩
    · rfl
    · exact absurd hp.symm (hother k₂ u₂ hu₂)
    · exact absurd hp (hother k₁ u₁ hu₁)
    · exact h.apart k₁ k₂ u₁ u₂ hu₁ hu₂ hp
  · rcases lookup_insert_cases hv with ⟨rfl, rfl⟩ | ⟨-, hv⟩
    · intro p since hl
      simp at hl
    · exact h.kept k' v hv
  · rcases lookup_insert_cases hv with ⟨rfl, rfl⟩ | ⟨-, hv⟩
    · exact ⟨rfl, fun _ hs => (by cases hs), fun _ hs => (by cases hs)⟩
    · exact h.adopted k' v hv

lemma Live.leave {k : Nat} {u : UtMetadata} (hk : w.sessions.lookup k = some u) :
    { w with store := w.store.onPeerGone u.peer, sessions := w.sessions.erase k }.Live sha1
      infoHash L := by
  obtain ⟨asked, hs⟩ := h.sound
  have hadv : w.store.Advances L (w.store.onPeerGone u.peer) := .onPeerGone _ _
  refine ⟨⟨_, hs.onPeerGone u.peer⟩, hadv.size h.size, fun k₁ k₂ u₁ u₂ h₁ h₂ hp => ?_,
    fun k' v hv => ?_, fun k' v hv => ?_⟩
  · exact h.apart k₁ k₂ u₁ u₂ (lookup_erase_cases h₁).2 (lookup_erase_cases h₂).2 hp
  · obtain ⟨hne, hv⟩ := lookup_erase_cases hv
    exact (h.kept k' v hv).frame le_rfl fun p t ht => onPeerGone_inflightAt ht
      fun hp => hne (h.apart k' k v u hv hk hp)
  · obtain ⟨-, hv⟩ := lookup_erase_cases hv
    exact (h.adopted k' v hv).frame ⟨rfl, rfl, rfl, rfl⟩ hadv

lemma Live.step {a : MetadataAct} (hok : w.Fetching sha1 L a) (hs : w.step sha1 a = some w') :
    w'.Live sha1 infoHash L := by
  cases a with
  | connect k peer =>
    simp only [MetadataSwarm.step] at hs
    split_ifs at hs
    cases hs
    exact h.connect hok
  | handshake k utMetadata metadataSize =>
    obtain ⟨u, hk, rfl⟩ := map_eq_some_iff.1 hs
    exact h.put (O := fun _ => True) hk (fun _ _ _ => trivial)
      (onHandshake_call h.sound fun hb hf hsup size hsize =>
        hok u hk hb (by rw [hf]; rfl) hsup size hsize)
  | message k msg watched claimed now =>
    simp only [MetadataSwarm.step] at hs
    split_ifs at hs with hle
    obtain ⟨u, hk, rfl⟩ := map_eq_some_iff.1 hs
    refine h.put (O := fun _ => True) hk (fun _ _ _ => trivial)
      (onMessage_call h.sound hle.1 hle.2 fun piece totalSize data hmsg hin => ?_)
    subst hmsg
    exact hok u hk hin
  | tick k now claimed asked =>
    simp only [MetadataSwarm.step] at hs
    split_ifs at hs with hle
    obtain ⟨u, hk, rfl⟩ := map_eq_some_iff.1 hs
    have hexp : ∀ k v, w.sessions.lookup k = some v → v.ExpiresWith w.store now :=
      fun k v hv => hok ⟨k, v⟩ (mem_lookup_iff.1 hv)
    exact h.put hk hexp (onTick_call h.sound hle.1 hle.2.1 hle.2.2 (hexp k u hk))
  | leave k =>
    obtain ⟨u, hk, rfl⟩ := map_eq_some_iff.1 hs
    exact h.leave hk

end

/-- No dead state: whenever the metadata is missing and nothing is in flight, a peer that
advertised its length is asked for a piece at the next tick of its session. -/
theorem never_stuck {acts : List MetadataAct}
    (hrun : Run (MetadataSwarm.step sha1) (Fetching sha1 L) (MetadataSwarm.new infoHash) acts w)
    (hb : w.store.infoBytes = none) (hidle : ∀ p, w.store.inflightAt p = none) {k : Nat}
    {u : UtMetadata} (hk : w.sessions.lookup k = some u) (hd : u.disconnect = false)
    (hs : u.info.peerExtId.isSome) (hsize : u.info.metadataSize = some (L : Int))
    (hpos : 1 ≤ L) (hmax : (L : Int) ≤ maxMetadataSize) {now claimed asked : Nat}
    (hnow : w.clock ≤ now) : ∃ piece, .request piece ∈ (u.onTick w.store now claimed asked).1 := by
  have h : w.Live sha1 infoHash L :=
    hrun.inv (I := Live sha1 infoHash L) (fun hI hok hs => hI.step hok hs) (.new sha1 infoHash L)
  exact onTick_requests h.sound (h.kept k u hk) (h.adopted k u hk) hb hidle hd hs hsize hpos hmax
    hnow claimed asked

structure View where
  infoBytes : Option Bytes
  /-- How many requests are in flight, if a fetch runs. -/
  inflight : Option Nat
  session : Option (PeerExtensionInfo × Option Int × Bool)
  clock : Nat
  deriving DecidableEq

def idleView (w : MetadataSwarm) (k : Nat) : View :=
  { infoBytes := w.store.infoBytes, inflight := w.store.fetch.map fun f => f.inflight.entries.length
    session := (w.sessions.lookup k).map fun u => (u.info, u.peerSize, u.disconnect)
    clock := w.clock }

lemma inflightAt_of_view {m : MetadataStore}
    (h : ∀ n ∈ m.fetch.map (fun f => f.inflight.entries.length), n = 0) (p : Nat) :
    m.inflightAt p = none := by
  unfold inflightAt
  cases hf : m.fetch with
  | none => rfl
  | some f =>
    have hnil : f.inflight.entries = [] := length_eq_zero_iff.1 (h _ (by rw [hf]; rfl))
    rw [bind_some, lookup_eq_none, AList.mem_keys, AList.keys, hnil]
    simp

/-- Peers of a torrent whose `info` dict is `[1, 2]`. -/
def infoHashOf12 : Digest := Digest.ofBytes [1, 2]

/-- The first peer leaves with a request in flight, the second advertised a wrong size. -/
def abandoned : List MetadataAct :=
  [.connect 0 (localPeer 1), .handshake 0 (some 3) (some 2), .tick 0 5 5 6,
    .connect 1 (localPeer 2), .handshake 1 (some 3) (some 7), .leave 0,
    .connect 2 (localPeer 3), .handshake 2 (some 3) (some 2)]

lemma abandoned_runs :
    (exec (step Digest.ofBytes) (Fetching Digest.ofBytes 2) (.new infoHashOf12) abandoned).map
      (·.idleView 2) = some ⟨none, some 0, some (⟨some 3, some 2⟩, some 2, false), 6⟩ := by
  decide +kernel

theorem never_stuck_abandoned :
    ∃ w u, Run (step Digest.ofBytes) (Fetching Digest.ofBytes 2) (.new infoHashOf12) abandoned w ∧
      w.sessions.lookup 2 = some u ∧ ∃ piece, .request piece ∈ (u.onTick w.store 7 7 7).1 := by
  obtain ⟨w, hw, hview⟩ := map_eq_some_iff.1 abandoned_runs
  simp only [idleView, View.mk.injEq] at hview
  obtain ⟨hb, hidle, hu, hclock⟩ := hview
  obtain ⟨u, hk, hu⟩ := map_eq_some_iff.1 hu
  simp only [Prod.mk.injEq] at hu
  obtain ⟨hinfo, -, hd⟩ := hu
  refine ⟨w, u, .of_exec hw, hk, ?_⟩
  exact never_stuck (.of_exec hw) hb (inflightAt_of_view (by rw [hidle]; simp)) hk hd
    (by rw [hinfo]; rfl) (by rw [hinfo]; rfl) (by decide) (by decide) (by omega)

def wrongSize : List MetadataAct :=
  [.connect 0 (localPeer 1), .handshake 0 (some 3) (some 5), .leave 0,
    .connect 1 (localPeer 2), .handshake 1 (some 3) (some 2)]

/-- Two peers with the right size; the first sends corrupt data and leaves. -/
def corruptData : List MetadataAct :=
  [.connect 0 (localPeer 1), .handshake 0 (some 3) (some 2), .connect 1 (localPeer 2),
    .handshake 1 (some 3) (some 2), .tick 0 5 5 6, .message 0 (some (.data 0 none [9, 9])) true 7 7,
    .leave 0]

lemma wrongSize_runs :
    (exec (step Digest.ofBytes) anyStep (.new infoHashOf12) wrongSize).map
      (·.idleView 1) = some ⟨none, some 0, some (⟨some 3, some 2⟩, none, false), 0⟩ := by
  decide +kernel

lemma corruptData_runs :
    (exec (step Digest.ofBytes) anyStep (.new infoHashOf12) corruptData).map
      (·.idleView 1) = some ⟨none, none, some (⟨some 3, some 2⟩, some 2, false), 7⟩ := by
  decide +kernel

/-- A connected peer with the right size is never asked: no tick of its session sends anything
while nothing else happens. -/
def Stuck (w : MetadataSwarm) : Prop :=
  ∃ u, w.store.infoBytes = none ∧ (∀ p, w.store.inflightAt p = none) ∧
    w.sessions.lookup 1 = some u ∧ u.disconnect = false ∧ u.info = ⟨some 3, some 2⟩ ∧
    ∀ now claimed asked, (u.onTick w.store now claimed asked).1 = []

/-- So it is after either. -/
theorem stuck_without :
    (∃ w, Run (step Digest.ofBytes) anyStep (.new infoHashOf12) wrongSize w ∧ w.Stuck) ∧
      ∃ w, Run (step Digest.ofBytes) anyStep (.new infoHashOf12) corruptData w ∧ w.Stuck := by
  constructor
  · obtain ⟨w, hw, hview⟩ := map_eq_some_iff.1 wrongSize_runs
    simp only [idleView, View.mk.injEq] at hview
    obtain ⟨hb, hidle, hu, -⟩ := hview
    obtain ⟨u, hk, hu⟩ := map_eq_some_iff.1 hu
    simp only [Prod.mk.injEq] at hu
    obtain ⟨hinfo, hsize, hd⟩ := hu
    exact ⟨w, .of_exec hw, u, hb, inflightAt_of_view (by rw [hidle]; simp), hk, hd, hinfo,
      onTick_silent (.inl hsize)⟩
  · obtain ⟨w, hw, hview⟩ := map_eq_some_iff.1 corruptData_runs
    simp only [idleView, View.mk.injEq] at hview
    obtain ⟨hb, hidle, hu, -⟩ := hview
    obtain ⟨u, hk, hu⟩ := map_eq_some_iff.1 hu
    simp only [Prod.mk.injEq] at hu
    obtain ⟨hinfo, -, hd⟩ := hu
    exact ⟨w, .of_exec hw, u, hb, inflightAt_of_view (by rw [hidle]; simp), hk, hd, hinfo,
      onTick_silent (.inr (map_eq_none_iff.1 hidle))⟩

end MetadataSwarm

end BitRev
