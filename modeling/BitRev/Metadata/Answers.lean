import BitRev.Metadata.Serving

/-!
# A peer that answers

One connection of a swarm, `k`, whose peer sends exactly one correct answer, `Data` or `Reject`, to
each request it gets, in any order and after any time; the other peers do what they like.
`Answering` keeps the requests that are still unanswered (`owed`), each with the clock reading the
store has filed it under, and the answers the session has disconnected for (`blamed`).

As long as no tick finds one of these requests timed out, what is owed is in flight, in the session
and, until the metadata is complete, at the peer in the store (`Owes`): then no answer is refused.
-/

namespace BitRev

open MetadataStore List Option AList Prod

def metadataPiece (bytes : Bytes) (piece : Nat) : Bytes :=
  (bytes.drop (piece * metadataPieceLen)).take metadataPieceLen

/-- A correct answer to a request for `piece`. -/
def UtMetadataMessage.Answers (bytes : Bytes) (piece : Nat) (msg : UtMetadataMessage) : Prop :=
  msg = .reject piece ∨ msg = .data piece (some bytes.length) (metadataPiece bytes piece)

instance (bytes : Bytes) (piece : Nat) (msg : UtMetadataMessage) :
    Decidable (msg.Answers bytes piece) := by
  unfold UtMetadataMessage.Answers
  infer_instance

def UtMetadataMessage.requested : UtMetadataMessage → Option Nat
  | .request piece => some piece
  | .data .. | .reject _ => none

structure Answering where
  swarm : MetadataSwarm
  owed : List (Nat × Nat) := []
  blamed : List UtMetadataMessage := []

namespace Answering

def new (infoHash : Digest) : Answering := { swarm := .new infoHash }

/-- The requests among the messages of a call that get to the peer. -/
def requests (claimed : Nat) (r : List UtMetadataMessage × UtMetadata × MetadataStore) :
    List (Nat × Nat) :=
  ((r.2.1.encodeOutgoing r.1).filterMap (·.requested)).map (·, claimed)

/-- What the step asks of the peer of `k`. -/
def asked (sha1 : Bytes → Digest) (k : Nat) (w : MetadataSwarm) : MetadataAct → List (Nat × Nat)
  | .message k' msg watched claimed now =>
    if k' = k then
      ((w.sessions.lookup k).map fun u =>
        requests claimed (u.onMessage sha1 w.store msg watched claimed now)).getD []
    else []
  | .tick k' now claimed asked =>
    if k' = k then
      ((w.sessions.lookup k).map fun u =>
        requests claimed (u.onTick w.store now claimed asked)).getD []
    else []
  | .connect .. | .handshake .. | .leave _ => []

/-- What is still owed when the step has begun; `none` where the peer would send an answer that is
not correct or that nobody has asked it for. -/
def remaining (bytes : Bytes) (k : Nat) (owed : List (Nat × Nat)) :
    MetadataAct → Option (List (Nat × Nat))
  | .message k' msg _ _ _ =>
    if k' = k then
      match msg with
      | none | some (.request _) => some owed
      | some msg => (owed.find? fun x => msg.Answers bytes x.1).map fun x => owed.erase x
    else some owed
  | .leave k' => some (if k' = k then [] else owed)
  | .connect .. | .handshake .. | .tick .. => some owed

def blames (k : Nat) (w w' : MetadataSwarm) : MetadataAct → List UtMetadataMessage
  | .message k' (some msg) _ _ _ =>
    if k' = k ∧ (w.sessions.lookup k).any (!·.disconnect) ∧
      (w'.sessions.lookup k).any (·.disconnect) then [msg]
    else []
  | _ => []

def step (sha1 : Bytes → Digest) (bytes : Bytes) (k : Nat) (s : Answering) (a : MetadataAct) :
    Option Answering :=
  (remaining bytes k s.owed a).bind fun owed =>
    (s.swarm.step sha1 a).map fun swarm =>
      { swarm, owed := owed ++ asked sha1 k s.swarm a
        blamed := s.blamed ++ blames k s.swarm swarm a }

/-- No tick finds an unanswered request of the peer timed out; the peer advertises the right size or
none, and no fetch of another size is started while its session holds on to one that failed; there
is no other connection to its address. -/
def Prompt (L k : Nat) (s : Answering) : MetadataAct → Prop
  | .connect k' peer => ∀ x ∈ s.swarm.sessions.entries, k' = k ∨ x.1 = k → x.2.peer ≠ peer
  | .handshake k' utMetadata metadataSize =>
    (k' = k → ∀ size ∈ (ExtensionHandshake.decoded utMetadata metadataSize).metadataSize,
      size = L) ∧
    (k' ≠ k → s.swarm.store.infoBytes = none → s.swarm.store.fetch.isNone →
      ∀ u ∈ s.swarm.sessions.lookup k, u.peerSize.isSome → ∀ v ∈ s.swarm.sessions.lookup k',
        ∀ size ∈ (v.info.merge (.decoded utMetadata metadataSize)).metadataSize, size = L)
  | .tick _ now _ _ => ∀ x ∈ s.owed, timedOut now x.2 = false
  | .message .. | .leave _ => True

instance (L k : Nat) (s : Answering) (a : MetadataAct) : Decidable (s.Prompt L k a) := by
  rcases a <;> unfold Prompt <;> infer_instance

end Answering

/-! ## What calls leave of the store -/

def MetadataStore.Shaped (m : MetadataStore) : Prop :=
  ∀ f, m.fetch = some f → f.pieces.length = (f.size + metadataPieceLen - 1) / metadataPieceLen

/-- A call that starts no fetch and leaves the requests in `keep` in flight. -/
structure MetadataStore.Leaves (sha1 : Bytes → Digest) (infoHash : Digest)
    (keep : Nat → Inflight → Prop) (m m' : MetadataStore) : Prop where
  sound : m'.Sound sha1 infoHash
  bytes : m'.infoBytes = none → m.infoBytes = none
  fetch : ∀ f', m'.fetch = some f' →
    ∃ f, m.fetch = some f ∧ f'.size = f.size ∧ f'.pieces.length = f.pieces.length
  inflight : ∀ p inf, m.inflightAt p = some inf → keep p inf → m'.inflightAt p = some inf

namespace MetadataStore.Leaves

variable {sha1 : Bytes → Digest} {infoHash : Digest} {keep keep' : Nat → Inflight → Prop}
  {m m' m'' : MetadataStore}

lemma refl (h : m.Sound sha1 infoHash) : Leaves sha1 infoHash keep m m :=
  ⟨h, id, fun f hf => ⟨f, hf, rfl, rfl⟩, fun _ _ h _ => h⟩

section

variable (h : Leaves sha1 infoHash keep m m')
include h

lemma mono (hk : ∀ p inf, keep' p inf → keep p inf) : Leaves sha1 infoHash keep' m m' :=
  ⟨h.sound, h.bytes, h.fetch, fun p inf hi hp => h.inflight p inf hi (hk p inf hp)⟩

lemma trans (h' : Leaves sha1 infoHash keep m' m'') : Leaves sha1 infoHash keep m m'' := by
  refine ⟨h'.sound, fun hb => h.bytes (h'.bytes hb), fun f'' hf'' => ?_,
    fun p inf hi hp => h'.inflight p inf (h.inflight p inf hi hp) hp⟩
  obtain ⟨f', hf', hs', hl'⟩ := h'.fetch f'' hf''
  obtain ⟨f, hf, hs, hl⟩ := h.fetch f' hf'
  exact ⟨f, hf, hs'.trans hs, hl'.trans hl⟩

lemma shaped (hm : m.Shaped) : m'.Shaped := by
  intro f' hf'
  obtain ⟨f, hf, hs, hl⟩ := h.fetch f' hf'
  rw [hl, hs]
  exact hm f hf

end

/-- A call that only changes what is in flight. -/
lemma of_inflight (hm : m'.Sound sha1 infoHash) (hb : m'.infoBytes = m.infoBytes)
    {f f' : FetchState} (hf : m.fetch = some f) (hf' : m'.fetch = some f')
    (hs : f'.size = f.size) (hl : f'.pieces.length = f.pieces.length)
    (hkeep : ∀ p inf, m.inflightAt p = some inf → keep p inf → m'.inflightAt p = some inf) :
    Leaves sha1 infoHash keep m m' := by
  refine ⟨hm, fun h => hb ▸ h, fun g hg => ?_, hkeep⟩
  cases hf'.symm.trans hg
  exact ⟨f, hf, hs, hl⟩

variable (h : m.Sound sha1 infoHash)
include h

variable (peer : PeerAddr)

lemma claimRequests (max now : Nat) :
    Leaves sha1 infoHash keep m (m.claimRequests peer max now).2 := by
  have hsound : (m.claimRequests peer max now).2.Sound sha1 infoHash := by
    obtain ⟨asked, hs⟩ := h
    exact ⟨_, hs.claimRequests peer max now⟩
  have hkeep : ∀ p inf, m.inflightAt p = some inf → keep p inf →
      (m.claimRequests peer max now).2.inflightAt p = some inf :=
    fun p inf hi _ => claimRequests_inflightAt hi
  rcases m.claimRequests_cases peer max now with ⟨he, -⟩ | ⟨f, new, inflight, hb, hf, -, -, he⟩
  · rw [he]
    exact refl h
  · rw [he] at hsound hkeep ⊢
    exact of_inflight hsound rfl hf rfl rfl rfl hkeep

lemma onReject (piece : Nat) :
    Leaves sha1 infoHash (fun p inf => p ≠ piece ∨ inf.peer ≠ peer) m (m.onReject peer piece) := by
  have hsound : (m.onReject peer piece).Sound sha1 infoHash := by
    obtain ⟨asked, hs⟩ := h
    exact ⟨_, hs.onReject peer piece⟩
  refine ⟨hsound, ?_, ?_, fun p inf hi hk => onReject_inflightAt hi hk⟩
  all_goals
    unfold MetadataStore.onReject
    cases hf : m.fetch with
    | none => simp [hf]
    | some f =>
      dsimp only
      split
      · simp
      · simp [hf]

lemma onPeerGone : Leaves sha1 infoHash (fun _ inf => inf.peer ≠ peer) m (m.onPeerGone peer) := by
  have hsound : (m.onPeerGone peer).Sound sha1 infoHash := by
    obtain ⟨asked, hs⟩ := h
    exact ⟨_, hs.onPeerGone peer⟩
  refine ⟨hsound, ?_, ?_, fun p inf hi hk => onPeerGone_inflightAt hi hk⟩
  all_goals
    unfold MetadataStore.onPeerGone
    cases hf : m.fetch <;> simp [hf]

lemma releaseTimeouts (now : Nat) :
    Leaves sha1 infoHash (fun _ inf => timedOut now inf.since = false) m
      (m.releaseTimeouts now).2 := by
  have hsound : (m.releaseTimeouts now).2.Sound sha1 infoHash := by
    obtain ⟨asked, hs⟩ := h
    exact ⟨_, hs.releaseTimeouts now⟩
  refine ⟨hsound, ?_, ?_, fun p inf hi hk => releaseTimeouts_inflightAt hi hk⟩
  all_goals
    unfold MetadataStore.releaseTimeouts
    cases hf : m.fetch <;> simp [hf]

lemma onData (piece : Nat) (data : Bytes) (totalSize : Option Int) (watched : Bool) :
    Leaves sha1 infoHash (fun p inf => p ≠ piece ∨ inf.peer ≠ peer) m
      (m.onData sha1 peer piece data totalSize watched).2.1 := by
  obtain ⟨asked, hs⟩ := h
  have hfetch : ∀ f, m.fetch = some f → f.Sound := hs.fetch
  have hsound : (m.onData sha1 peer piece data totalSize watched).2.1.Sound sha1 infoHash :=
    ⟨_, hs.onData peer piece data totalSize watched⟩
  have hkeep : ∀ p inf, m.inflightAt p = some inf → p ≠ piece ∨ inf.peer ≠ peer →
      (m.onData sha1 peer piece data totalSize watched).2.1.inflightAt p = some inf :=
    fun p inf => onData_inflightAt sha1 hfetch peer piece data totalSize watched
  rcases onData_cases sha1 hfetch peer piece data totalSize watched with
    ⟨he, -⟩ | ⟨f, since, hb, hf, -, -, he⟩
  · rw [he]
    exact refl ⟨asked, hs⟩
  · rw [he] at hsound hkeep ⊢
    rcases m.fill_cases sha1 (received f peer piece data) watched with
      ⟨-, he'⟩ | ⟨-, blamed, he'⟩ | ⟨-, -, he'⟩
    · rw [he'] at hsound hkeep ⊢
      exact of_inflight hsound rfl hf rfl rfl (length_set) hkeep
    · rw [he'] at hsound hkeep ⊢
      exact ⟨hsound, fun _ => hb, fun f' hf' => (by cases hf'), hkeep⟩
    · rw [he'] at hsound hkeep ⊢
      exact ⟨hsound, fun _ => hb, fun f' hf' => (by cases hf'), hkeep⟩

end MetadataStore.Leaves

/-! ## What a session asks for -/

lemma FetchState.claimFrom_nodup (peer : PeerAddr) (max now : Nat) (slots : List (Option Bytes))
    (idx : Nat) (inflight : Inflights) (out : List Nat) (h : out.Nodup) (hlt : ∀ p ∈ out, p < idx) :
    (claimFrom peer max now slots idx inflight out).2.Nodup := by
  induction slots generalizing idx inflight out with
  | nil => exact h
  | cons slot slots ih =>
    have hlt' : ∀ p ∈ out, p < idx + 1 := fun p hp => Nat.lt_succ_of_lt (hlt p hp)
    rw [claimFrom]
    split
    · exact h
    split
    · exact ih _ _ _ h hlt'
    split
    · exact ih _ _ _ h hlt'
    · refine ih _ _ _ ?_ fun p hp => ?_
      · rw [nodup_append]
        exact ⟨h, nodup_singleton _, by
          rintro p hp q hq rfl
          exact absurd (hlt p hp) (by simp_all)⟩
      · exact forall_mem_append.2 ⟨hlt', forall_mem_singleton.2 (Nat.lt_succ_self idx)⟩ p hp

namespace UtMetadata

variable {sha1 : Bytes → Digest} {infoHash : Digest} {u u' : UtMetadata} {m m' : MetadataStore}
  {L : Nat} {owed owed' : List (Nat × Nat)}

/-- `request_more`, with the pieces it claims: none of them was in flight. -/
structure Requested (u : UtMetadata) (m : MetadataStore) (claimed now : Nat) (new : List Nat)
    (r : List UtMetadataMessage × UtMetadata × MetadataStore) : Prop where
  messages : r.1 = new.map .request
  nodup : new.Nodup
  session : r.2.1 = { u with inflight := new.foldl (fun i p => i.insert p now) u.inflight }
  free : ∀ p ∈ new, m.inflightAt p = none
  filed : ∀ p ∈ new, r.2.2.inflightAt p = some { peer := u.peer, since := claimed }
  wanted : new ≠ [] → m.infoBytes = none ∧ u.peerSize.isSome

lemma requestMore_requested (u : UtMetadata) (m : MetadataStore) (claimed now : Nat) :
    ∃ new, Requested u m claimed now new (u.requestMore m claimed now) := by
  have hnone : Requested u m claimed now [] ([], u, m) :=
    ⟨rfl, nodup_nil, rfl, by simp, by simp, by simp⟩
  unfold requestMore
  split
  · exact ⟨[], hnone⟩
  split
  · exact ⟨[], hnone⟩
  rename_i hb hz
  have hb : m.infoBytes = none := by
    simp only [Bool.or_eq_true, not_or] at hb
    simpa using hb.2
  have hz : u.peerSize.isSome := by simpa [isSome_iff_ne_none] using hz
  dsimp only
  refine ⟨_, rfl, ?_, rfl, fun p hp => ?_, fun p hp => claimRequests_claimed hp, fun _ => ⟨hb, hz⟩⟩
  · unfold claimRequests
    split
    · exact nodup_nil
    · split
      · exact nodup_nil
      · exact FetchState.claimFrom_nodup _ _ _ _ _ _ _ nodup_nil (by simp)
  · rcases m.claimRequests_cases u.peer (metadataPipeline - u.inflight.entries.length) claimed with
      ⟨he, -⟩ | ⟨f, new, inflight, -, hf, -, hc, he⟩
    · rw [he] at hp
      cases hp
    · rw [he] at hp
      obtain ⟨i, rfl, -, hl⟩ := hc.free p hp
      rw [inflightAt, hf]
      exact hl

lemma requestMore_leaves {keep : Nat → Inflight → Prop} (h : m.Sound sha1 infoHash)
    (claimed now : Nat) : m.Leaves sha1 infoHash keep (u.requestMore m claimed now).2.2 := by
  rcases requestMore_cases u m claimed now with ⟨he, -⟩ | he
  · rw [he]
    exact .refl h
  · rw [he]
    exact .claimRequests h _ _ _

lemma onMessage_leaves (h : m.Sound sha1 infoHash) (msg : Option UtMetadataMessage)
    (watched : Bool) (claimed now : Nat) :
    m.Leaves sha1 infoHash (fun _ inf => inf.peer ≠ u.peer)
      (u.onMessage sha1 m msg watched claimed now).2.2 := by
  unfold onMessage
  split
  · exact .refl h
  split
  · exact .refl h
  · split
    · exact .refl h
    · dsimp only
      split <;> exact .refl h
  · rename_i piece
    have hleaves : m.Leaves sha1 infoHash (fun _ inf => inf.peer ≠ u.peer)
        (m.onReject u.peer piece) :=
      (MetadataStore.Leaves.onReject h u.peer piece).mono fun _ _ hp => .inr hp
    exact hleaves.trans (requestMore_leaves hleaves.sound claimed now)
  · rename_i piece totalSize data
    split
    · exact .refl h
    have hleaves : m.Leaves sha1 infoHash (fun _ inf => inf.peer ≠ u.peer)
        (m.onData sha1 u.peer piece data totalSize watched).2.1 :=
      (MetadataStore.Leaves.onData h u.peer piece data totalSize watched).mono fun _ _ hp => .inr hp
    dsimp only
    split
    any_goals exact hleaves
    all_goals exact hleaves.trans (requestMore_leaves hleaves.sound claimed now)

lemma onTick_leaves (h : m.Sound sha1 infoHash) (now claimed asked : Nat) :
    m.Leaves sha1 infoHash (fun _ inf => timedOut now inf.since = false)
      (u.onTick m now claimed asked).2.2 := by
  unfold onTick
  dsimp only
  split
  · exact .refl h
  · have hleaves := MetadataStore.Leaves.releaseTimeouts h now
    exact hleaves.trans (requestMore_leaves hleaves.sound claimed asked)

/-! ## What is owed is in flight -/

/-- The requests the peer of a session owes an answer to. -/
structure Owes (L : Nat) (owed : List (Nat × Nat)) (u : UtMetadata) (m : MetadataStore) :
    Prop where
  info : ∀ size ∈ u.info.metadataSize, size = L
  size : u.peerSize.isSome ∨ owed ≠ [] → m.infoBytes = none →
    ∀ f, m.fetch = some f → f.size = L
  nodup : (owed.map (·.1)).Nodup
  here : ∀ x ∈ owed, ∃ since, u.inflight.lookup x.1 = some since ∧ x.2 ≤ since
  filed : m.infoBytes = none → ∀ x ∈ owed,
    m.inflightAt x.1 = some { peer := u.peer, since := x.2 }

namespace Owes

lemma fresh (L : Nat) (peer : PeerAddr) (m : MetadataStore) : Owes L [] { peer } m :=
  ⟨by simp, by simp, nodup_nil, by simp, by simp⟩

variable (h : Owes L owed u m)
include h

lemma sublist (hs : owed'.Sublist owed) : Owes L owed' u m := by
  refine ⟨h.info, fun ho => h.size (ho.imp_right fun hne he => hne ?_), (hs.map (·.1)).nodup
    h.nodup, fun x hx => h.here x (hs.subset hx), fun hb x hx => h.filed hb x (hs.subset hx)⟩
  exact sublist_nil.1 (he ▸ hs)

/-- A call of another session. -/
lemma leaves {keep : Nat → Inflight → Prop} (hm : m.Leaves sha1 infoHash keep m')
    (hk : ∀ x ∈ owed, keep x.1 { peer := u.peer, since := x.2 }) : Owes L owed u m' := by
  refine ⟨h.info, fun ho hb f' hf' => ?_, h.nodup, h.here, fun hb x hx => ?_⟩
  · obtain ⟨f, hf, hs, -⟩ := hm.fetch f' hf'
    rw [hs]
    exact h.size ho (hm.bytes hb) f hf
  · exact hm.inflight _ _ (h.filed (hm.bytes hb) x hx) (hk x hx)

/-- What else a session keeps does not matter. -/
lemma congr (hu : u.SameView u') (hi : u'.inflight = u.inflight) : Owes L owed u' m := by
  refine ⟨?_, ?_, h.nodup, ?_, ?_⟩
  · rw [hu.info]
    exact h.info
  · rw [hu.peerSize]
    exact h.size
  · rw [hi]
    exact h.here
  · rw [hu.peer]
    exact h.filed

/-- The requests of `request_more` are owed as well. -/
lemma requested {claimed now : Nat} (hle : claimed ≤ now) {new : List Nat}
    (hm : m.Leaves sha1 infoHash (fun _ _ => True) (u.requestMore m claimed now).2.2)
    (hr : Requested u m claimed now new (u.requestMore m claimed now)) :
    Owes L (owed ++ new.map (·, claimed)) (u.requestMore m claimed now).2.1
      (u.requestMore m claimed now).2.2 := by
  have hold := h.leaves hm fun _ _ => trivial
  -- a piece that is owed already is in flight, so it is not claimed
  have hfresh : ∀ x ∈ owed, x.1 ∉ new := by
    intro x hx hnew
    have hb := (hr.wanted (ne_nil_of_mem hnew)).1
    have := h.filed hb x hx
    rw [hr.free _ hnew] at this
    cases this
  rw [hr.session]
  refine ⟨h.info, fun ho => ?_, ?_, forall_mem_append.2 ⟨fun x hx => ?_, forall_mem_map.2
    fun p hp => ?_⟩, fun hb => forall_mem_append.2 ⟨hold.filed hb, forall_mem_map.2 hr.filed⟩⟩
  · by_cases hne : new = []
    · subst hne
      exact hold.size (by simpa using ho)
    · exact hold.size (.inl (hr.wanted hne).2)
  · rw [map_append, List.map_map]
    have hmap : (fst ∘ fun p : Nat => (p, claimed)) = id := rfl
    rw [hmap, List.map_id, nodup_append]
    refine ⟨h.nodup, hr.nodup, ?_⟩
    rintro p hp q hq rfl
    obtain ⟨x, hx, rfl⟩ := mem_map.1 hp
    exact hfresh x hx hq
  · rw [lookup_foldl_insert, if_neg (hfresh x hx)]
    exact h.here x hx
  · rw [lookup_foldl_insert]
    exact ⟨now, if_pos hp, hle⟩

/-- The pieces that `request_more` claims are owed if the requests get out, and not otherwise. -/
lemma requestMore (hm : m.Sound sha1 infoHash) {claimed now : Nat} (hle : claimed ≤ now) :
    Owes L (owed ++ Answering.requests claimed (u.requestMore m claimed now))
      (u.requestMore m claimed now).2.1 (u.requestMore m claimed now).2.2 := by
  obtain ⟨new, hr⟩ := requestMore_requested u m claimed now
  refine (h.requested hle (requestMore_leaves hm claimed now) hr).sublist
    (List.Sublist.append_left ?_ owed)
  unfold Answering.requests encodeOutgoing
  split
  · rw [hr.messages, filterMap_map]
    have hsome : (UtMetadataMessage.requested ∘ UtMetadataMessage.request) = some := rfl
    rw [hsome, filterMap_some]
  · exact nil_sublist _

/-- An answer: the piece leaves the session and the store, and what is owed. -/
lemma settle {x : Nat × Nat} (hx : x ∈ owed)
    (hm : m.Leaves sha1 infoHash (fun p inf => p ≠ x.1 ∨ inf.peer ≠ u.peer) m') :
    Owes L (owed.erase x) { u with inflight := u.inflight.erase x.1 } m' := by
  have hne : ∀ y ∈ owed.erase x, y.1 ≠ x.1 := by
    intro y hy heq
    have hperm := (perm_cons_erase hx).map (·.1)
    have hnd := hperm.nodup_iff.1 h.nodup
    rw [map_cons, nodup_cons] at hnd
    exact hnd.1 (heq ▸ mem_map_of_mem hy)
  have hold := (h.sublist erase_sublist).leaves hm fun y hy => .inl (hne y hy)
  refine ⟨hold.info, hold.size, hold.nodup, fun y hy => ?_, hold.filed⟩
  rw [lookup_erase_ne (hne y hy)]
  exact hold.here y hy

end Owes

/-! ## The answers -/

lemma pieceLen_metadataPiece {f : FetchState} {bytes : Bytes} {piece : Nat}
    (hs : f.size = bytes.length)
    (hl : f.pieces.length = (f.size + metadataPieceLen - 1) / metadataPieceLen)
    (hp : piece < f.pieces.length) :
    f.pieceLen piece = some (metadataPiece bytes piece).length := by
  unfold FetchState.pieceLen metadataPiece
  rw [if_neg (by omega), length_take, length_drop, ← hs]
  dsimp only
  split
  · rw [some.injEq]
    split
    · simp only [metadataPieceLen] at *
      omega
    · simp only [metadataPieceLen] at *
      omega
  · rw [some.injEq]
    simp only [metadataPieceLen] at *
    omega

lemma onData_taken (hm : m.Sound sha1 infoHash) (hshape : m.Shaped) {bytes : Bytes}
    (h : Owes bytes.length owed u m) {x : Nat × Nat} (hx : x ∈ owed) (watched : Bool) :
    let r := m.onData sha1 u.peer x.1 (metadataPiece bytes x.1) (some bytes.length) watched
    r.1 ≠ .invalid ∧ r.1 ≠ .unrequested := by
  dsimp only
  unfold onData
  split
  · exact ⟨nofun, nofun⟩
  rename_i hb
  have hb : m.infoBytes = none := by simpa using hb
  have hfiled := h.filed hb x hx
  cases hf : m.fetch with
  | none => simp [inflightAt, hf] at hfiled
  | some f =>
    rw [inflightAt, hf, bind_some] at hfiled
    obtain ⟨asked, hs⟩ := hm
    have hsize := h.size (.inr (ne_nil_of_mem hx)) hb f hf
    have hfree := (hs.fetch f hf).free x.1 _ hfiled
    obtain ⟨hlt, -⟩ := List.getElem?_eq_some_iff.1 hfree
    have hlen := pieceLen_metadataPiece hsize (hshape f hf) hlt
    have hpos : 0 < bytes.length := by
      rw [hshape f hf, hsize] at hlt
      by_contra h0
      rw [show bytes.length = 0 by omega] at hlt
      exact absurd hlt (by simp [metadataPieceLen])
    have htotal : ¬ ((some (bytes.length : Int)).any
        fun size => size ≤ 0 ∨ size.toNat ≠ f.size) := by
      simp only [any_some, decide_eq_true_eq, hsize, Int.toNat_natCast]
      omega
    dsimp only
    rw [if_neg htotal, if_neg (by rw [hlen]; simp), hfiled]
    dsimp only
    rw [if_neg (by simp), if_neg (by simp [getD_eq_getElem?_getD, hfree])]
    rcases m.fill_cases sha1 (received f u.peer x.1 (metadataPiece bytes x.1)) watched
      with ⟨-, he⟩ | ⟨-, blamed, he⟩ | ⟨-, -, he⟩
    all_goals
      unfold received at he
      rw [he]
      exact ⟨by simp, by simp⟩

lemma requestMore_disconnect (u : UtMetadata) (m : MetadataStore) (claimed now : Nat) :
    (u.requestMore m claimed now).2.1.disconnect = u.disconnect := by
  rcases requestMore_cases u m claimed now with ⟨he, -⟩ | he <;> rw [he]

lemma requests_nil (claimed : Nat) (u : UtMetadata) (m : MetadataStore) :
    Answering.requests claimed ([], u, m) = [] := by
  unfold Answering.requests encodeOutgoing
  split <;> rfl

lemma requests_answer (claimed : Nat) {msg : UtMetadataMessage} (h : msg.requested = none)
    (u : UtMetadata) (m : MetadataStore) : Answering.requests claimed ([msg], u, m) = [] := by
  unfold Answering.requests encodeOutgoing
  split
  · rw [filterMap_cons_none h]
    rfl
  · rfl

lemma Owes.onMessage (hm : m.Sound sha1 infoHash) (hshape : m.Shaped) {bytes : Bytes}
    (h : Owes bytes.length owed u m) {k : Nat} {msg : Option UtMetadataMessage} {watched : Bool}
    {claimed now : Nat} (hle : claimed ≤ now)
    (hrem : Answering.remaining bytes k owed (.message k msg watched claimed now) = some owed') :
    let r := u.onMessage sha1 m msg watched claimed now
    Owes bytes.length (owed' ++ Answering.requests claimed r) r.2.1 r.2.2 ∧
      (msg.isSome → u.disconnect = false → r.2.1.disconnect = false) := by
  simp only [Answering.remaining, if_true] at hrem
  have hsub : owed'.Sublist owed := by
    split at hrem
    · exact (some.inj hrem) ▸ List.Sublist.refl _
    · exact (some.inj hrem) ▸ List.Sublist.refl _
    · obtain ⟨x, -, rfl⟩ := map_eq_some_iff.1 hrem
      exact erase_sublist
  have hquiet {u' : UtMetadata} (hu : u.SameView u') (hi : u'.inflight = u.inflight) :
      Owes bytes.length (owed' ++ []) u' m := by
    rw [append_nil]
    exact (h.sublist hsub).congr hu hi
  dsimp only
  unfold UtMetadata.onMessage
  split
  · rw [requests_nil]
    exact ⟨hquiet ⟨rfl, rfl, rfl, rfl⟩ rfl, fun _ hd => hd⟩
  split
  · rw [requests_nil]
    exact ⟨hquiet ⟨rfl, rfl, rfl, rfl⟩ rfl, nofun⟩
  · split
    · rw [requests_answer claimed rfl]
      exact ⟨hquiet ⟨rfl, rfl, rfl, rfl⟩ rfl, fun _ hd => hd⟩
    · dsimp only
      split
      · rw [requests_answer claimed rfl]
        exact ⟨hquiet ⟨rfl, rfl, rfl, rfl⟩ rfl, fun _ hd => hd⟩
      · rw [requests_answer claimed rfl]
        exact ⟨hquiet ⟨rfl, rfl, rfl, rfl⟩ rfl, fun _ hd => hd⟩
  -- a reject
  · rename_i piece
    obtain ⟨x, hx, rfl⟩ := map_eq_some_iff.1 hrem
    have hans := find?_some hx
    rw [decide_eq_true_iff] at hans
    obtain rfl : piece = x.1 := by simpa [UtMetadataMessage.Answers] using hans
    have hleaves := MetadataStore.Leaves.onReject hm u.peer x.1
    have howes := h.settle (mem_of_find?_eq_some hx) hleaves
    refine ⟨howes.requestMore hleaves.sound hle, fun _ hd => ?_⟩
    rw [requestMore_disconnect]
    exact hd
  -- data
  · rename_i piece totalSize data
    obtain ⟨x, hx, rfl⟩ := map_eq_some_iff.1 hrem
    have hans := find?_some hx
    rw [decide_eq_true_iff] at hans
    have hmem := mem_of_find?_eq_some hx
    obtain ⟨rfl, rfl, rfl⟩ : piece = x.1 ∧ totalSize = some (bytes.length : Int) ∧
        data = metadataPiece bytes x.1 := by
      simpa [UtMetadataMessage.Answers] using hans
    obtain ⟨since, hin, -⟩ := h.here x hmem
    rw [if_neg (not_not.2 (lookup_isSome.1 (by rw [hin]; rfl)))]
    have hleaves := MetadataStore.Leaves.onData hm u.peer x.1 (metadataPiece bytes x.1)
      (some (bytes.length : Int)) watched
    have howes := h.settle hmem hleaves
    obtain ⟨hvalid, hrequested⟩ := onData_taken hm hshape h hmem watched
    dsimp only
    split
    · exact absurd ‹_› hvalid
    · exact absurd ‹_› hrequested
    · rw [requests_nil, append_nil]
      exact ⟨howes, fun _ hd => hd⟩
    · rw [requests_nil, append_nil]
      exact ⟨howes, fun _ hd => hd⟩
    · rw [requests_nil, append_nil]
      exact ⟨howes, fun _ hd => hd⟩
    · refine ⟨howes.requestMore hleaves.sound hle, fun _ hd => ?_⟩
      rw [requestMore_disconnect]
      exact hd
    · refine ⟨howes.requestMore hleaves.sound hle, fun _ hd => ?_⟩
      rw [requestMore_disconnect]
      exact hd

lemma Owes.onTick (hm : m.Sound sha1 infoHash) (h : Owes L owed u m) {now claimed asked : Nat}
    (hle : claimed ≤ asked) (hfresh : ∀ x ∈ owed, timedOut now x.2 = false) :
    let r := u.onTick m now claimed asked
    Owes L (owed ++ Answering.requests claimed r) r.2.1 r.2.2 := by
  dsimp only
  unfold UtMetadata.onTick
  dsimp only
  split
  · rw [requests_nil, append_nil]
    exact h.congr ⟨rfl, rfl, rfl, rfl⟩ rfl
  · have hleaves := MetadataStore.Leaves.releaseTimeouts hm now
    have hreset : Owes L owed { u with servedThisWindow := 0 } m :=
      h.congr ⟨rfl, rfl, rfl, rfl⟩ rfl
    have hold := hreset.leaves hleaves hfresh
    refine Owes.requestMore (m := (m.releaseTimeouts now).2) ?_ hleaves.sound hle
    refine ⟨hold.info, hold.size, hold.nodup, fun x hx => ?_, hold.filed⟩
    obtain ⟨since, hin, hsince⟩ := hold.here x hx
    refine ⟨since, Assoc.lookup_retain.2 ⟨hin, ?_⟩, hsince⟩
    -- the session reads the clock after the store did
    have := hfresh x hx
    simp only [timedOut, decide_eq_false_iff_not, Bool.not_eq_true'] at this ⊢
    omega

variable (u : UtMetadata) (m : MetadataStore)

lemma requestMore_sameView (claimed now : Nat) : u.SameView (u.requestMore m claimed now).2.1 := by
  rcases requestMore_cases u m claimed now with ⟨he, -⟩ | he <;> rw [he] <;>
    exact ⟨rfl, rfl, rfl, rfl⟩

lemma onMessage_peer (msg : Option UtMetadataMessage) (watched : Bool) (claimed now : Nat) :
    (u.onMessage sha1 m msg watched claimed now).2.1.peer = u.peer := by
  unfold onMessage
  split
  · rfl
  split
  · rfl
  · split
    · rfl
    · dsimp only
      split <;> rfl
  · exact (requestMore_sameView _ _ claimed now).peer
  · split
    · rfl
    · dsimp only
      split
      any_goals rfl
      all_goals exact (requestMore_sameView _ _ claimed now).peer

lemma onTick_peer (now claimed asked : Nat) : (u.onTick m now claimed asked).2.1.peer = u.peer := by
  unfold onTick
  dsimp only
  split
  · rfl
  · exact (requestMore_sameView _ _ claimed asked).peer

end UtMetadata

/-! ## Handshakes -/

namespace MetadataStore

variable {sha1 : Bytes → Digest} {infoHash : Digest} {m : MetadataStore}

lemma adoptSize_cases (m : MetadataStore) (size : Int) :
    ((m.adoptSize size).2 = m ∧ ((m.adoptSize size).1.isSome → m.infoBytes = none →
      ∃ f, m.fetch = some f ∧ f.size = size.toNat)) ∨
    (m.infoBytes = none ∧ m.fetch = none ∧
      m.adoptSize size = (some size.toNat, { m with fetch := some (.new size.toNat) })) := by
  unfold MetadataStore.adoptSize
  split
  · exact .inl ⟨rfl, nofun⟩
  split
  · rename_i bytes hb
    exact .inl ⟨rfl, fun _ hn => by rw [hb] at hn; cases hn⟩
  · rename_i f hb hf
    refine .inl ⟨rfl, fun hs _ => ⟨f, hf, ?_⟩⟩
    by_contra hne
    simp [hne] at hs
  · rename_i hb hf
    exact .inr ⟨hb, hf, rfl⟩

lemma adoptSize_sound (h : m.Sound sha1 infoHash) (size : Int) :
    (m.adoptSize size).2.Sound sha1 infoHash := by
  obtain ⟨asked, hs⟩ := h
  exact ⟨_, hs.adoptSize size⟩

lemma adoptSize_shaped (h : m.Shaped) (size : Int) : (m.adoptSize size).2.Shaped := by
  rcases m.adoptSize_cases size with ⟨he, -⟩ | ⟨-, -, he⟩
  · rwa [he]
  · rw [he]
    intro f hf
    cases hf
    exact length_replicate

end MetadataStore

namespace UtMetadata

variable {sha1 : Bytes → Digest} {infoHash : Digest} {u v : UtMetadata} {m : MetadataStore}
  {L : Nat} {owed : List (Nat × Nat)} {info : PeerExtensionInfo}

lemma Owes.adoptSize (h : Owes L owed u m) {size : Int}
    (hL : m.infoBytes = none → m.fetch = none → u.peerSize.isSome → size = L) :
    Owes L owed u (m.adoptSize size).2 := by
  rcases m.adoptSize_cases size with ⟨he, -⟩ | ⟨hb, hf, he⟩
  · rwa [he]
  -- while something is owed, a fetch runs
  · have hnil : owed = [] := by
      refine eq_nil_iff_forall_not_mem.2 fun x hx => ?_
      have := h.filed hb x hx
      simp [inflightAt, hf] at this
    rw [he]
    subst hnil
    refine ⟨h.info, fun ho _ f hf' => ?_, h.nodup, h.here, fun _ x hx => ?_⟩
    · cases hf'
      have hsize := hL hb hf (ho.resolve_right fun hne => hne rfl)
      rw [FetchState.new, hsize, Int.toNat_natCast]
    · cases hx

lemma onHandshake_store (v : UtMetadata) (m : MetadataStore) (info : PeerExtensionInfo) :
    (v.onHandshake m info).2 = m ∨
      ∃ size ∈ info.metadataSize, (v.onHandshake m info).2 = (m.adoptSize size).2 := by
  unfold onHandshake
  dsimp only
  split
  · exact .inl rfl
  split
  · exact .inl rfl
  · rename_i size hsize
    split
    · exact .inr ⟨size, hsize, rfl⟩
    · exact .inl rfl

lemma onHandshake_peer (u : UtMetadata) (m : MetadataStore) (info : PeerExtensionInfo) :
    (u.onHandshake m info).1.peer = u.peer := by
  unfold onHandshake
  dsimp only
  split
  · rfl
  split
  · rfl
  · split <;> rfl

lemma onHandshake_sound (h : m.Sound sha1 infoHash) (v : UtMetadata) (info : PeerExtensionInfo) :
    (v.onHandshake m info).2.Sound sha1 infoHash := by
  rcases onHandshake_store v m info with he | ⟨size, -, he⟩
  · rwa [he]
  · rw [he]
    exact adoptSize_sound h size

lemma onHandshake_shaped (h : m.Shaped) (v : UtMetadata) (info : PeerExtensionInfo) :
    (v.onHandshake m info).2.Shaped := by
  rcases onHandshake_store v m info with he | ⟨size, -, he⟩
  · rwa [he]
  · rw [he]
    exact adoptSize_shaped h size

lemma Owes.onHandshake (h : Owes L owed u m) (hinfo : ∀ size ∈ info.metadataSize, size = L) :
    Owes L owed (u.onHandshake m info).1 (u.onHandshake m info).2 := by
  unfold UtMetadata.onHandshake
  dsimp only
  split
  · exact ⟨hinfo, fun ho => h.size (.inr (ho.resolve_left nofun)), h.nodup, h.here, h.filed⟩
  split
  · rename_i hnone
    exact ⟨hinfo, h.size, h.nodup, h.here, h.filed⟩
  · rename_i size hsize
    obtain rfl := hinfo size hsize
    split
    · have hadopt : Owes L owed u (m.adoptSize L).2 := h.adoptSize fun _ _ _ => rfl
      refine ⟨hinfo, fun ho hb f hf => ?_, hadopt.nodup, hadopt.here, hadopt.filed⟩
      rcases m.adoptSize_cases L with ⟨he, hsome⟩ | ⟨-, -, he⟩
      · rw [he] at hb hf
        rcases ho with ho | ho
        · obtain ⟨f', hf', hs⟩ := hsome (by simpa using ho) hb
          cases hf'.symm.trans hf
          exact hs
        · exact h.size (.inr ho) hb f hf
      · rw [he] at hf
        cases hf
        exact Int.toNat_natCast L
    · rename_i hb
      refine ⟨hinfo, fun _ hn => ?_, h.nodup, h.here, h.filed⟩
      rw [hn] at hb
      exact absurd rfl hb

end UtMetadata

/-! ## Whole runs -/

namespace Answering

open UtMetadata

variable {sha1 : Bytes → Digest} {infoHash : Digest} {bytes : Bytes} {k : Nat} {s s' : Answering}
  {w : MetadataSwarm} {owed : List (Nat × Nat)} {blamed : List UtMetadataMessage}

/-- What holds in every state. -/
structure Sound (sha1 : Bytes → Digest) (infoHash : Digest) (bytes : Bytes) (k : Nat)
    (s : Answering) : Prop where
  store : s.swarm.store.Sound sha1 infoHash
  shaped : s.swarm.store.Shaped
  gone : s.swarm.sessions.lookup k = none → s.owed = []
  owes : ∀ u, s.swarm.sessions.lookup k = some u → Owes bytes.length s.owed u s.swarm.store
  apart : ∀ u, s.swarm.sessions.lookup k = some u →
    ∀ k' v, k' ≠ k → s.swarm.sessions.lookup k' = some v → v.peer ≠ u.peer
  blameless : s.blamed = []

lemma new_sound (sha1 : Bytes → Digest) (infoHash : Digest) (bytes : Bytes) (k : Nat) :
    (new infoHash).Sound sha1 infoHash bytes k := by
  refine ⟨⟨_, Ledger.Sound.new sha1 infoHash⟩, nofun, fun _ => rfl, ?_, ?_, rfl⟩ <;>
    simp [new, MetadataSwarm.new]

section

variable (h : s.Sound sha1 infoHash bytes k)
include h

lemma Sound.own {u u' : UtMetadata} {m' : MetadataStore} {now : Nat}
    (hk : s.swarm.sessions.lookup k = some u) (hpeer : u'.peer = u.peer)
    (hm : m'.Sound sha1 infoHash) (hshape : m'.Shaped) (howes : Owes bytes.length owed u' m') :
    Sound sha1 infoHash bytes k { swarm := s.swarm.put k now u' m', owed, blamed := [] } := by
  have hlook : (s.swarm.put k now u' m').sessions.lookup k = some u' := lookup_insert _
  refine ⟨hm, hshape, fun hn => ?_, fun u₁ hu => ?_, fun u₁ hu k' v hne hv => ?_, rfl⟩
  · rw [hlook] at hn
    cases hn
  · cases hlook.symm.trans hu
    exact howes
  · cases hlook.symm.trans hu
    have hv : s.swarm.sessions.lookup k' = some v := by
      rwa [MetadataSwarm.put, lookup_insert_ne hne] at hv
    rw [hpeer]
    exact h.apart u hk k' v hne hv

/-- A call of another session. -/
lemma Sound.other {k' : Nat} (hne : k' ≠ k) {v v' : UtMetadata} {m' : MetadataStore} {now : Nat}
    (hk : s.swarm.sessions.lookup k' = some v) (hpeer : v'.peer = v.peer)
    (hm : m'.Sound sha1 infoHash) (hshape : m'.Shaped)
    (howes : ∀ u, s.swarm.sessions.lookup k = some u → Owes bytes.length s.owed u s.swarm.store →
      Owes bytes.length s.owed u m') :
    Sound sha1 infoHash bytes k
      { swarm := s.swarm.put k' now v' m', owed := s.owed, blamed := [] } := by
  have hlook : (s.swarm.put k' now v' m').sessions.lookup k = s.swarm.sessions.lookup k :=
    lookup_insert_ne hne.symm
  refine ⟨hm, hshape, fun hn => h.gone (hlook ▸ hn), fun u hu => ?_, fun u hu k₁ v₁ hne₁ hv => ?_,
    rfl⟩
  · rw [hlook] at hu
    exact howes u hu (h.owes u hu)
  · rw [hlook] at hu
    rcases Assoc.lookup_insert_cases hv with ⟨rfl, rfl⟩ | ⟨-, hv⟩
    · rw [hpeer]
      exact h.apart u hu k₁ v hne hk
    · exact h.apart u hu k₁ v₁ hne₁ hv

lemma Sound.connect {k' : Nat} {peer : PeerAddr} (hnew : k' ∉ s.swarm.sessions)
    (hok : ∀ x ∈ s.swarm.sessions.entries, k' = k ∨ x.1 = k → x.2.peer ≠ peer) :
    Sound sha1 infoHash bytes k
      { swarm := { s.swarm with sessions := s.swarm.sessions.insert k' { peer } }
        owed := s.owed, blamed := [] } := by
  have hother {k₁ v} (hv : s.swarm.sessions.lookup k₁ = some v) (hk : k' = k ∨ k₁ = k) :
      v.peer ≠ peer := hok ⟨k₁, v⟩ (mem_lookup_iff.1 hv) hk
  rcases eq_or_ne k' k with rfl | hne
  · have hgone := h.gone (lookup_eq_none.2 hnew)
    refine ⟨h.store, h.shaped, fun _ => hgone, fun u hu => ?_, fun u hu k₁ v hne hv => ?_, rfl⟩
    · cases (lookup_insert _).symm.trans hu
      dsimp only
      rw [hgone]
      exact .fresh _ peer _
    · cases (lookup_insert _).symm.trans hu
      exact hother ((lookup_insert_ne hne).symm.trans hv) (.inl rfl)
  · have hlook : (s.swarm.sessions.insert k' ({ peer } : UtMetadata)).lookup k =
        s.swarm.sessions.lookup k := lookup_insert_ne hne.symm
    refine ⟨h.store, h.shaped, fun hn => h.gone (hlook ▸ hn), fun u hu => h.owes u (hlook ▸ hu),
      fun u hu k₁ v hne₁ hv => ?_, rfl⟩
    have hold : s.swarm.sessions.lookup k = some u := hlook.symm.trans hu
    rcases Assoc.lookup_insert_cases hv with ⟨rfl, rfl⟩ | ⟨-, hv⟩
    · exact (hother hold (.inr rfl)).symm
    · exact h.apart u hold k₁ v hne₁ hv

lemma Sound.leave {k' : Nat} {v : UtMetadata} (hk : s.swarm.sessions.lookup k' = some v) :
    Sound sha1 infoHash bytes k
      { swarm := { s.swarm with store := s.swarm.store.onPeerGone v.peer
                                sessions := s.swarm.sessions.erase k' }
        owed := if k' = k then [] else s.owed, blamed := [] } := by
  have hleaves := MetadataStore.Leaves.onPeerGone h.store v.peer
  rcases eq_or_ne k' k with rfl | hne
  · have hlook := lookup_erase (a := k') s.swarm.sessions
    refine ⟨hleaves.sound, hleaves.shaped h.shaped, fun _ => if_pos rfl, fun u hu => ?_,
      fun u hu => ?_, rfl⟩
    all_goals
      cases hlook.symm.trans hu
  · have hlook := lookup_erase_ne (s := s.swarm.sessions) hne.symm
    rw [if_neg hne]
    refine ⟨hleaves.sound, hleaves.shaped h.shaped, fun hn => h.gone (hlook ▸ hn), fun u hu => ?_,
      fun u hu k₁ v₁ hne₁ hv => ?_, rfl⟩
    · have hu := hlook ▸ hu
      exact (h.owes u hu).leaves hleaves fun _ _ => (h.apart u hu k' v hne hk).symm
    · exact h.apart u (hlook ▸ hu) k₁ v₁ hne₁ (Assoc.lookup_erase_cases hv).2

end

lemma merge_metadataSize {info : PeerExtensionInfo} {hs : ExtensionHandshake} {L : Int}
    (hinfo : ∀ size ∈ info.metadataSize, size = L) (hsize : ∀ size ∈ hs.metadataSize, size = L) :
    ∀ size ∈ (info.merge hs).metadataSize, size = L := by
  unfold PeerExtensionInfo.merge
  dsimp only
  cases h : hs.metadataSize with
  | none => exact hinfo
  | some size => exact fun size' hs' => hsize size' (h ▸ hs')

/-- Nobody is blamed for what another session does, or its own while it stays. -/
lemma blames_message {w w' : MetadataSwarm} {k' claimed now : Nat} {msg : Option UtMetadataMessage}
    {watched : Bool} (h : msg.isSome → k' = k → (w.sessions.lookup k).any (!·.disconnect) →
      (w'.sessions.lookup k).any (·.disconnect) = false) :
    blames k w w' (.message k' msg watched claimed now) = [] := by
  cases msg with
  | none => rfl
  | some msg =>
    refine if_neg fun hb => ?_
    rw [h rfl hb.1 hb.2.1] at hb
    cases hb.2.2

lemma Sound.message (h : s.Sound sha1 infoHash bytes k) {w : MetadataSwarm} {k' claimed now : Nat}
    {msg : Option UtMetadataMessage} {watched : Bool} {owed : List (Nat × Nat)}
    (hrem : remaining bytes k s.owed (.message k' msg watched claimed now) = some owed)
    (hw : s.swarm.step sha1 (.message k' msg watched claimed now) = some w) :
    Sound sha1 infoHash bytes k
      { swarm := w, owed := owed ++ asked sha1 k s.swarm (.message k' msg watched claimed now)
        blamed := blames k s.swarm w (.message k' msg watched claimed now) } := by
  simp only [MetadataSwarm.step] at hw
  split_ifs at hw with hle
  obtain ⟨v, hk, rfl⟩ := map_eq_some_iff.1 hw
  have hleaves := onMessage_leaves (u := v) h.store msg watched claimed now
  have hshape := hleaves.shaped h.shaped
  rcases eq_or_ne k' k with rfl | hne
  · obtain ⟨howes, hdisc⟩ := (h.owes v hk).onMessage h.store h.shaped hle.2 hrem
    rw [blames_message fun hmsg _ hbefore => ?_]
    · have hasked : asked sha1 k' s.swarm (.message k' msg watched claimed now) =
          requests claimed (v.onMessage sha1 s.swarm.store msg watched claimed now) := by
        simp [asked, hk]
      rw [hasked]
      exact h.own hk (onMessage_peer v _ msg watched claimed now) hleaves.sound hshape howes
    · rw [hk] at hbefore
      rw [MetadataSwarm.put, lookup_insert]
      exact hdisc hmsg (by simpa using hbefore)
  · have hrem : owed = s.owed := by simpa [remaining, hne, eq_comm] using hrem
    have hasked : asked sha1 k s.swarm (.message k' msg watched claimed now) = [] := if_neg hne
    rw [blames_message fun _ he => absurd he hne, hasked, append_nil, hrem]
    refine h.other hne hk (onMessage_peer v _ msg watched claimed now) hleaves.sound hshape
      fun u hu howes => howes.leaves hleaves fun _ _ => (h.apart u hu k' v hne hk).symm

lemma Sound.step {a : MetadataAct} (h : s.Sound sha1 infoHash bytes k)
    (hok : s.Prompt bytes.length k a) (hs : s.step sha1 bytes k a = some s') :
    s'.Sound sha1 infoHash bytes k := by
  obtain ⟨owed, hrem, hs⟩ := bind_eq_some_iff.1 hs
  obtain ⟨w, hw, rfl⟩ := map_eq_some_iff.1 hs
  rw [h.blameless, nil_append]
  cases a with
  | connect k' peer =>
    cases hrem
    simp only [MetadataSwarm.step] at hw
    split_ifs at hw with hnew
    cases hw
    simpa [asked, blames] using h.connect hnew hok
  | handshake k' utMetadata metadataSize =>
    cases hrem
    obtain ⟨v, hk, rfl⟩ := map_eq_some_iff.1 hw
    simp only [asked, blames, append_nil]
    set info := v.info.merge (.decoded utMetadata metadataSize)
    have hsound := onHandshake_sound h.store v info
    have hshape := onHandshake_shaped h.shaped v info
    rcases eq_or_ne k' k with rfl | hne
    · have howes := h.owes v hk
      exact h.own hk (onHandshake_peer v _ info) hsound hshape
        (howes.onHandshake (merge_metadataSize howes.info (hok.1 rfl)))
    · refine h.other hne hk (onHandshake_peer v _ info) hsound hshape fun u hu howes => ?_
      rcases onHandshake_store v s.swarm.store info with he | ⟨size, hsize, he⟩
      · rwa [he]
      · rw [he]
        exact howes.adoptSize fun hb hf hp => hok.2 hne hb (by rw [hf]; rfl) u hu hp v hk size hsize
  | message k' msg watched claimed now => exact h.message hrem hw
  | tick k' now claimed asked' =>
    cases hrem
    simp only [MetadataSwarm.step] at hw
    split_ifs at hw with hle
    obtain ⟨v, hk, rfl⟩ := map_eq_some_iff.1 hw
    have hleaves := onTick_leaves (u := v) h.store now claimed asked'
    have hshape := hleaves.shaped h.shaped
    simp only [blames]
    rcases eq_or_ne k' k with rfl | hne
    · have hasked : asked sha1 k' s.swarm (.tick k' now claimed asked') =
          requests claimed (v.onTick s.swarm.store now claimed asked') := by
        simp [asked, hk]
      rw [hasked]
      exact h.own hk (onTick_peer v _ now claimed asked') hleaves.sound hshape
        ((h.owes v hk).onTick h.store hle.2.2 hok)
    · have hasked : asked sha1 k s.swarm (.tick k' now claimed asked') = [] := if_neg hne
      rw [hasked, append_nil]
      exact h.other hne hk (onTick_peer v _ now claimed asked') hleaves.sound hshape
        fun u hu howes => howes.leaves hleaves hok
  | leave k' =>
    cases hrem
    obtain ⟨v, hk, rfl⟩ := map_eq_some_iff.1 hw
    simpa [asked, blames] using h.leave hk

/-- The session of a peer that answers each request once and correctly, at any time before a tick
finds the request timed out, never disconnects for one of the answers. -/
theorem never_blamed {acts : List MetadataAct}
    (hrun : Run (step sha1 bytes k) (Prompt bytes.length k) (new infoHash) acts s) :
    s.blamed = [] :=
  (hrun.inv (I := Sound sha1 infoHash bytes k) Sound.step (new_sound sha1 infoHash bytes k)).blameless

/-- What a run is evaluated for. -/
def view (s : Answering) : List Nat × List UtMetadataMessage := (s.owed.map (·.1), s.blamed)

open MetadataSwarm (infoHashOf12)

def dataOf12 : UtMetadataMessage := .data 0 (some 2) [1, 2]

/-- The peer is asked for the one piece of `[1, 2]`, and answers before the next tick. -/
def answeredInTime : List MetadataAct :=
  [.connect 0 (localPeer 1), .handshake 0 (some 3) (some 2), .tick 0 5 5 6,
    .message 0 (some dataOf12) true 7 7, .tick 0 8 8 8]

theorem never_blamed_inTime : ∃ s, Run (step Digest.ofBytes [1, 2] 0) (Prompt 2 0)
    (new infoHashOf12) answeredInTime s ∧ s.owed = [] ∧ s.blamed = [] := by
  have hview : (exec (step Digest.ofBytes [1, 2] 0) (Prompt 2 0) (new infoHashOf12)
      answeredInTime).map view = some ([], []) := by
    decide +kernel
  obtain ⟨s, hs, hview⟩ := map_eq_some_iff.1 hview
  have hrun := Run.of_exec hs
  exact ⟨s, hrun, map_eq_nil_iff.1 (Prod.mk.inj hview).1, never_blamed hrun⟩

def answeredLate : List MetadataAct :=
  [.connect 0 (localPeer 1), .handshake 0 (some 3) (some 2), .tick 0 5 5 6,
    .tick 0 (6 + metadataRequestTimeout) (6 + metadataRequestTimeout) (6 + metadataRequestTimeout),
    .message 0 (some dataOf12) true (7 + metadataRequestTimeout) (7 + metadataRequestTimeout),
    .message 0 (some dataOf12) true (8 + metadataRequestTimeout) (8 + metadataRequestTimeout)]

/-- The second answer is taken for data nobody asked for. -/
theorem blamed_late : ∃ s, Run (step Digest.ofBytes [1, 2] 0) anyStep (new infoHashOf12)
    answeredLate s ∧ s.blamed = [dataOf12] := by
  have hview : (exec (step Digest.ofBytes [1, 2] 0) anyStep (new infoHashOf12)
      answeredLate).map view = some ([], [dataOf12]) := by
    decide +kernel
  obtain ⟨s, hs, hview⟩ := map_eq_some_iff.1 hview
  exact ⟨s, .of_exec hs, (Prod.mk.inj hview).2⟩

end Answering

end BitRev
