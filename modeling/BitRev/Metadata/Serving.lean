import BitRev.Metadata.Sessions

/-!
# Serving metadata

`ExtensionSession::handle_extended` (`extension/registry.rs`), as far as `ut_metadata` goes: what a
peer may be sent of the metadata between two ticks of its connection. A session counts the requests
it has looked at since `on_tick`, and answers further ones with a reject. The extension handshake of
a peer runs `on_tick` as well, so it starts the count again.

The other extensions of a connection neither touch the session nor send its messages, and are left
out; the store is shared with the sessions of the other connections, which may do anything to it.
-/

namespace BitRev

/-- What a payload decodes to, as a handshake and as a message of `ut_metadata`. -/
structure ExtendedPayload where
  utMetadata : Option Int := none
  metadataSize : Option Int := none
  message : Option UtMetadataMessage := none

def UtMetadataMessage.isData : UtMetadataMessage → Bool
  | .data .. => true
  | .request _ | .reject _ => false

/-- `with_bytes`: the store of a torrent whose metadata is known. -/
def MetadataStore.withBytes (infoHash : Digest) (bytes : Bytes) : MetadataStore :=
  { infoHash, infoBytes := some bytes }

namespace UtMetadata

/-- `encode_outgoing`: a peer without an id for the extension is sent nothing. -/
def encodeOutgoing (u : UtMetadata) (msgs : List UtMetadataMessage) : List UtMetadataMessage :=
  if u.info.peerExtId.isSome then msgs else []

/-- `handle_extended` of a connection that has `ut_metadata` under the id `localId`. -/
def handleExtended (sha1 : Bytes → Digest) (localId : UInt8) (u : UtMetadata) (m : MetadataStore)
    (extId : UInt8) (payload : ExtendedPayload) (watched : Bool) (now claimed asked : Nat) :
    List UtMetadataMessage × UtMetadata × MetadataStore :=
  if extId = 0 then
    let r := u.onHandshake m (u.info.merge (.decoded payload.utMetadata payload.metadataSize))
    let t := r.1.onTick r.2 now claimed asked
    (t.2.1.encodeOutgoing t.1, t.2)
  else if extId = localId then
    let r := u.onMessage sha1 m payload.message watched claimed asked
    (r.2.1.encodeOutgoing r.1, r.2)
  else ([], u, m)

variable {u : UtMetadata}

/-! ## What each call serves -/

lemma requestMore_served (u : UtMetadata) (m : MetadataStore) (claimed now : Nat) :
    (u.requestMore m claimed now).1.countP (·.isData) = 0 ∧
      (u.requestMore m claimed now).2.1.servedThisWindow = u.servedThisWindow := by
  rcases requestMore_cases u m claimed now with ⟨he, -⟩ | he
  · rw [he]
    exact ⟨rfl, rfl⟩
  · rw [he]
    refine ⟨?_, rfl⟩
    rw [List.countP_map, List.countP_eq_zero]
    exact fun _ _ => Bool.false_ne_true

lemma onTick_served (u : UtMetadata) (m : MetadataStore) (now claimed asked : Nat) :
    (u.onTick m now claimed asked).1.countP (·.isData) = 0 ∧
      (u.onTick m now claimed asked).2.1.servedThisWindow = 0 := by
  unfold onTick
  dsimp only
  split
  · exact ⟨rfl, rfl⟩
  · exact requestMore_served _ _ claimed asked

lemma onMessage_served (sha1 : Bytes → Digest) (m : MetadataStore)
    (hle : u.servedThisWindow ≤ maxServePerWindow) (msg : Option UtMetadataMessage)
    (watched : Bool) (claimed now : Nat) :
    let r := u.onMessage sha1 m msg watched claimed now
    r.1.countP (·.isData) + u.servedThisWindow ≤ r.2.1.servedThisWindow ∧
      r.2.1.servedThisWindow ≤ maxServePerWindow := by
  -- claims ask for data and serve none
  have hclaim (u' : UtMetadata) (m' : MetadataStore)
      (hs : u'.servedThisWindow = u.servedThisWindow) :
      (u'.requestMore m' claimed now).1.countP (·.isData) + u.servedThisWindow ≤
          (u'.requestMore m' claimed now).2.1.servedThisWindow ∧
        (u'.requestMore m' claimed now).2.1.servedThisWindow ≤ maxServePerWindow := by
    obtain ⟨hdata, hserved⟩ := requestMore_served u' m' claimed now
    omega
  have hsilent : List.countP UtMetadataMessage.isData [] + u.servedThisWindow ≤
      u.servedThisWindow ∧ u.servedThisWindow ≤ maxServePerWindow :=
    ⟨by rw [List.countP_nil, zero_add], hle⟩
  dsimp only
  unfold onMessage
  split
  · exact hsilent
  split
  · exact hsilent
  · split
    · exact hsilent
    · rename_i hlt
      dsimp only
      split
      · exact ⟨by simp [UtMetadataMessage.isData, add_comm], by dsimp only; omega⟩
      · exact ⟨by simp [UtMetadataMessage.isData], by dsimp only; omega⟩
  · exact hclaim _ _ rfl
  · split
    · exact hsilent
    · dsimp only
      split
      any_goals exact hsilent
      all_goals exact hclaim _ _ rfl

lemma countP_encodeOutgoing (u : UtMetadata) (msgs : List UtMetadataMessage) :
    (u.encodeOutgoing msgs).countP (·.isData) ≤ msgs.countP (·.isData) := by
  unfold encodeOutgoing
  split
  · exact le_rfl
  · exact Nat.zero_le _

end UtMetadata

/-! ## A window -/

/-- A connection since the last tick of its ticker, with what it has sent the peer since then. -/
structure ServeWindow where
  session : UtMetadata
  store : MetadataStore
  sent : List UtMetadataMessage := []

inductive WindowAct where
  /-- An `Extended` message of the peer. -/
  | extended (extId : UInt8) (payload : ExtendedPayload) (watched : Bool) (now claimed asked : Nat)
  /-- The other connections have made this of the store. -/
  | others (store : MetadataStore)

namespace ServeWindow

open UtMetadata

def opened (u : UtMetadata) (m : MetadataStore) (now claimed asked : Nat) : ServeWindow :=
  let r := u.onTick m now claimed asked
  { session := r.2.1, store := r.2.2 }

def step (sha1 : Bytes → Digest) (localId : UInt8) (w : ServeWindow) :
    WindowAct → Option ServeWindow
  | .extended extId payload watched now claimed asked =>
    let r := w.session.handleExtended sha1 localId w.store extId payload watched now claimed asked
    some { session := r.2.1, store := r.2.2, sent := w.sent ++ r.1 }
  | .others store => some { w with store }

/-- How many pieces of the metadata the peer was sent. -/
def served (w : ServeWindow) : Nat := w.sent.countP (·.isData)

/-- A handshake comes only before the first request of the window. -/
def HandshakesFirst (w : ServeWindow) : WindowAct → Prop
  | .extended extId .. => extId = 0 → w.session.servedThisWindow = 0
  | .others _ => True

instance (w : ServeWindow) (a : WindowAct) : Decidable (w.HandshakesFirst a) := by
  unfold HandshakesFirst
  split <;> infer_instance

variable {sha1 : Bytes → Digest} {localId : UInt8} {w w' : ServeWindow}

/-- What was sent is in the count, and the count is within its bound. -/
def Counted (w : ServeWindow) : Prop :=
  w.served ≤ w.session.servedThisWindow ∧ w.session.servedThisWindow ≤ maxServePerWindow

lemma opened_counted (u : UtMetadata) (m : MetadataStore) (now claimed asked : Nat) :
    (opened u m now claimed asked).Counted := by
  obtain ⟨-, hserved⟩ := onTick_served u m now claimed asked
  refine ⟨Nat.zero_le _, ?_⟩
  rw [opened, hserved]
  exact Nat.zero_le _

lemma Counted.step {a : WindowAct} (h : w.Counted) (hok : w.HandshakesFirst a)
    (hs : w.step sha1 localId a = some w') : w'.Counted := by
  obtain ⟨hsent, hle⟩ := h
  cases a with
  | others store =>
    cases hs
    exact ⟨hsent, hle⟩
  | extended extId payload watched now claimed asked =>
    cases hs
    unfold Counted served
    dsimp only
    rw [List.countP_append]
    unfold served at hsent
    unfold handleExtended
    split
    -- a handshake: nothing was served yet, and the count starts at zero again
    · rename_i hzero
      have hnone := hok hzero
      set r := w.session.onHandshake w.store
        (w.session.info.merge (.decoded payload.utMetadata payload.metadataSize))
      obtain ⟨hdata, hserved⟩ := onTick_served r.1 r.2 now claimed asked
      have hout := countP_encodeOutgoing (r.1.onTick r.2 now claimed asked).2.1
        (r.1.onTick r.2 now claimed asked).1
      dsimp only
      omega
    · split
      · have hmsg := onMessage_served sha1 w.store hle payload.message watched claimed asked
        set r := w.session.onMessage sha1 w.store payload.message watched claimed asked
        have hout := countP_encodeOutgoing r.2.1 r.1
        dsimp only at hmsg ⊢
        omega
      · exact ⟨hsent, hle⟩

/-- Whatever a peer sends between two ticks, in whatever state its session is and whatever the
others do meanwhile, it gets no more than `MAX_SERVE_PER_WINDOW` pieces of the metadata, if its
handshakes come before its requests. -/
theorem served_le {u : UtMetadata} {m : MetadataStore} {now claimed asked : Nat}
    {acts : List WindowAct}
    (hrun : Run (step sha1 localId) HandshakesFirst (opened u m now claimed asked) acts w) :
    w.served ≤ maxServePerWindow := by
  obtain ⟨hsent, hle⟩ := hrun.inv Counted.step (opened_counted u m now claimed asked)
  exact hsent.trans hle

def seedWindow : ServeWindow :=
  opened { peer := ⟨.v4 1, 6881⟩, info := { utMetadata := some 3 }, peerSupports := true }
    (.withBytes 0 [1, 2, 3, 4, 5]) 0 0 0

def askPiece (piece : Nat) : WindowAct :=
  .extended 1 { message := some (.request piece) } false 0 0 0

def sayHello : WindowAct := .extended 0 { utMetadata := some 3 } false 0 0 0

theorem served_le_asked : ∃ w, Run (step (fun _ => 0) 1) HandshakesFirst seedWindow
    (sayHello :: List.replicate 6 (askPiece 0)) w ∧ w.served ≤ maxServePerWindow :=
  have hrun := Run.of_isSome
  ⟨_, hrun, served_le hrun⟩

/-- A handshake after every fourth request gets the peer a piece for each of them. -/
theorem served_past_limit : ∃ w, Run (step (fun _ => 0) 1) anyStep seedWindow
    (List.replicate 4 (askPiece 0) ++ sayHello :: List.replicate 4 (askPiece 0)) w ∧
      w.served = 8 ∧ maxServePerWindow < w.served :=
  ⟨_, .of_isSome, by decide +kernel, by decide +kernel⟩

end ServeWindow

end BitRev
