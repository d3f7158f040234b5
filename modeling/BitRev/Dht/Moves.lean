import BitRev.Dht.Actor
import BitRev.Framework.Assoc

/-!
# What the DHT actor can do

The steps of the actor, taken apart into moves: each of them changes the lookups, the torrents, the
table or what was sent in one way.
-/

namespace BitRev

open List Option

/-- The command may start a lookup for the peers of `h`, also if `h` was not added. -/
def DhtCmd.Opens (h : Digest) : DhtCmd → Prop
  | .addTorrent h' _ _ | .setActive h' true => h' = h
  | _ => False

namespace Dht

/-- What the lookups of an actor depend on, and what it has sent. -/
structure Core where
  table : RoutingTable
  lookups : AList fun _ : Nat => Lookup
  torrents : AList fun _ : NodeId => TorrentDht
  nextLookup : Nat
  bootstrapped : Bool
  started : List (LookupKind × NodeId)
  sent : List (SocketAddr × KrpcMessage)

namespace Core

def start (c : Core) (target : NodeId) (kind : LookupKind) (seeds : List CompactNode) : Core :=
  { c with
    nextLookup := (c.nextLookup + 1) % 2 ^ 64
    lookups := c.lookups.insert c.nextLookup (.new target kind seeds)
    started := c.started ++ [(kind, target)] }

/-- A query about a hash is about a torrent there is, or part of a lookup for its peers. -/
def MayAsk (c : Core) (q : Query) : Prop :=
  ∀ h, q.infoHash = some h → (c.torrents.lookup h).isSome ∨
    ∃ id l, c.lookups.lookup id = some l ∧ l.kind = .getPeers ∧ l.target = h

end Core

def DhtActor.core (a : DhtActor) : Core :=
  ⟨a.table, a.lookups, a.torrents, a.nextLookup, a.bootstrapped, a.started, a.sent⟩

/-- What the actor does: `ok` holds for the lookups it starts and the torrents it adds, and the
table changes only if it is `free` to. -/
inductive Move (free : Prop) (ok : LookupKind → NodeId → Prop) (c : Core) : Core → Prop
  | table (t : RoutingTable) : free → c.table.buckets.length ≤ t.buckets.length →
    Move free ok c { c with table := t }
  | ask {id : Nat} {l l' : Lookup} : c.lookups.lookup id = some l →
    l'.target = l.target ∧ l'.kind = l.kind →
    Move free ok c { c with lookups := c.lookups.insert id l' }
  | drop (id : Nat) : Move free ok c { c with lookups := c.lookups.erase id }
  | findSelf (seeds : List CompactNode) : c.bootstrapped = false →
    Move free ok c ({ c with bootstrapped := true }.start c.table.id .findNode seeds)
  | start {kind : LookupKind} {target : NodeId} (seeds : List CompactNode) : ok kind target →
    Move free ok c (c.start target kind seeds)
  | torrent {h : NodeId} (t : TorrentDht) :
    (c.torrents.lookup h).isSome ∨ ok .getPeers h →
    Move free ok c { c with torrents := c.torrents.insert h t }
  | forget (h : NodeId) : Move free ok c { c with torrents := c.torrents.erase h }
  | send (addr : SocketAddr) (msg : KrpcMessage) :
    (∀ q, msg.payload = .query q → c.MayAsk q) →
    Move free ok c { c with sent := c.sent ++ [(addr, msg)] }

/-- Any number of moves. -/
def Moves (free : Prop) (ok : LookupKind → NodeId → Prop) (a a' : DhtActor) : Prop :=
  Relation.ReflTransGen (Move free ok) a.core a'.core

variable {free : Prop} {ok : LookupKind → NodeId → Prop} {now : Int} {a a' a'' : DhtActor}

lemma Moves.one (h : Move free ok a.core a'.core) : Moves free ok a a' := .single h

lemma Moves.trans (h : Moves free ok a a') (h' : Moves free ok a' a'') : Moves free ok a a'' :=
  Relation.ReflTransGen.trans h h'

lemma Moves.of_eq (h : a'.core = a.core) : Moves free ok a a' := by
  rw [Moves, h]

/-- A loop makes the moves of its turns. -/
lemma Moves.foldl {β : Type} {f : DhtActor → β → DhtActor} (l : List β)
    (hf : ∀ a, ∀ b ∈ l, Moves free ok a (f a b)) : Moves free ok a (l.foldl f a) :=
  foldlRecOn l f .refl fun a₁ h b hb => h.trans (hf a₁ b hb)

lemma Moves.ite (h : Moves free ok a a') (h' : Moves free ok a a'') {b : Bool} :
    Moves free ok a (if b then a' else a'') := by
  cases b with
  | true => exact h
  | false => exact h'

/-- What every move keeps holds after any number of them. -/
lemma Moves.inv {I : Core → Prop} (hI : ∀ c c', I c → Move free ok c c' → I c')
    (h : Moves free ok a a') (ha : I a.core) : I a'.core := by
  unfold Moves at h
  generalize a.core = c at h ha
  generalize a'.core = c' at h
  induction h with
  | refl => exact ha
  | tail _ hm ih => exact hI _ _ ih hm

/-- A move changes the table only where it is free to. -/
lemma Moves.table_eq (h : Moves False ok a a') : a'.table = a.table := by
  refine h.inv (I := fun c => c.table = a.table) (fun c c' hc hm => ?_) rfl
  cases hm with
  | table t hfree => exact hfree.elim
  | _ => exact hc

namespace DhtActor

/-! ## Messages -/

lemma sendMsg_moves (addr : SocketAddr) {msg : KrpcMessage}
    (h : ∀ q, msg.payload = .query q → a.core.MayAsk q) : Moves free ok a (a.sendMsg addr msg) :=
  .one (.send addr msg h)

lemma sendQuery_moves (addr : SocketAddr) {q : Query} (kind : PendingKind)
    (h : a.core.MayAsk q) : Moves free ok a (a.sendQuery now addr q kind) :=
  .one (.send addr _ fun q' hq => by cases hq; exact h)

/-- Queries are sent while the lookups and the torrents stay. -/
lemma foldl_sendQuery_moves {β : Type} (f : DhtActor → β → SocketAddr × Query × PendingKind)
    (l : List β)
    (hf : ∀ b : DhtActor, b.lookups = a.lookups → b.torrents = a.torrents → ∀ x,
      b.core.MayAsk (f b x).2.1) :
    Moves free ok a (l.foldl (fun a x => a.sendQuery now (f a x).1 (f a x).2.1 (f a x).2.2) a) := by
  refine (foldlRecOn (motive := fun b : DhtActor =>
    Moves free ok a b ∧ b.lookups = a.lookups ∧ b.torrents = a.torrents) l _ ?_ ?_).1
  · exact ⟨.refl, rfl, rfl⟩
  · rintro b ⟨hb, hl, ht⟩ x -
    exact ⟨hb.trans (sendQuery_moves _ _ (hf b hl ht x)), hl, ht⟩

lemma sendPing_moves (addr : SocketAddr) (node : Option CompactNode) :
    Moves free ok a (a.sendPing now addr node) :=
  sendQuery_moves addr _ nofun

lemma peerSinkIf_core (a : DhtActor) (h : NodeId) (peers : List SocketAddr) :
    (a.peerSinkIf h peers).core = a.core := by
  unfold peerSinkIf
  split <;> rfl

/-! ## Lookups go on -/

lemma removeLookup_moves (id : Option Nat) : Moves free ok a (a.removeLookup id) := by
  cases id with
  | none => exact .refl
  | some id => exact .one (.drop id)

lemma modifyTorrent_moves (h : NodeId) (f : TorrentDht → TorrentDht) :
    Moves free ok a (a.modifyTorrent h f) := by
  unfold modifyTorrent
  split
  · rename_i t ht
    exact .one (.torrent _ (.inl (isSome_of_eq_some ht)))
  · exact .refl

/-- Only a torrent there is gets announced. -/
lemma announce_moves (l : Lookup) : Moves free ok a (a.announce now l) := by
  unfold DhtActor.announce
  split
  · exact .refl
  rename_i t ht
  split
  · exact .refl
  · refine (foldl_sendQuery_moves (fun a (x : CompactNode × Bytes) => (x.1.addr,
      .announcePeer a.table.id l.target t.listenPort.toUInt16 x.2 false, .announce)) _ ?_).trans
      (modifyTorrent_moves ..)
    intro b _ hb x h heq
    cases heq
    exact .inl (isSome_of_eq_some ((congrArg (·.lookup l.target) hb).trans ht))

lemma finishLookup_moves (id : Nat) : Moves free ok a (a.finishLookup now id) := by
  unfold DhtActor.finishLookup
  split
  · exact .refl
  · dsimp only
    split
    · exact removeLookup_moves _
    · exact ((removeLookup_moves _).trans (.of_eq (peerSinkIf_core ..))).trans (announce_moves _)

/-- A lookup keeps its target and its kind. -/
lemma setLookup_moves {id : Nat} {l l' : Lookup} (hl : a.lookups.lookup id = some l)
    (h : l'.target = l.target ∧ l'.kind = l.kind) : Moves free ok a (a.setLookup id l') :=
  .one (.ask hl h)

/-- By induction on the rounds: the queries of each belong to the lookup that asks them. -/
lemma driveLoop_moves (fuel id : Nat) : Moves free ok a (a.driveLoop now id fuel) := by
  induction fuel generalizing a with
  | zero => exact .refl
  | succ fuel ih =>
    unfold DhtActor.driveLoop
    split
    · exact .refl
    rename_i l hl
    split
    · exact finishLookup_moves id
    have hset : Moves free ok a (a.setLookup id l.nextQueries.1) :=
      setLookup_moves hl l.nextQueries_target
    dsimp only
    split
    · split
      · exact hset.trans (finishLookup_moves id)
      · exact hset
    · refine (hset.trans ?_).trans ih
      refine foldl_sendQuery_moves (fun a (node : CompactNode) =>
        (node.addr, a.lookupQuery l.nextQueries.1, .lookup id)) _ ?_
      intro b hb _ _ h heq
      refine .inr ⟨id, l.nextQueries.1, ?_, ?_⟩
      · exact (congrArg (·.lookup id) hb).trans (AList.lookup_insert _)
      · unfold lookupQuery at heq
        split at heq
        · cases heq
        · rename_i hk
          exact ⟨hk, some.inj heq⟩

lemma driveLookup_moves (id : Nat) : Moves free ok a (a.driveLookup now id) :=
  driveLoop_moves _ id

/-- Lookups go on and end, whatever `ok` is. -/
lemma kickLookups_moves : Moves free ok a (a.kickLookups now) :=
  Moves.foldl _ fun _ id _ => driveLookup_moves id

/-! ## Starts -/

lemma startFindSelf_moves : Moves free ok a a.startFindSelf := by
  unfold startFindSelf
  split_ifs with hb
  · exact .refl
  · exact .one (.findSelf _ (Bool.eq_false_iff.2 hb))

variable {h : NodeId}

/-- The lookup for the peers of a torrent takes the place of its last one. -/
lemma startGetPeers_moves (hok : ok .getPeers h) : Moves free ok a (a.startGetPeers now h) := by
  unfold startGetPeers
  dsimp only
  refine ((removeLookup_moves (a.torrentLookup h)).trans ?_).trans (modifyTorrent_moves ..)
  set b := DhtActor.peerSinkIf _ h _ with hb
  have hcore : b.core = (a.removeLookup (a.torrentLookup h)).core := peerSinkIf_core _ _ _
  have hstart : Move free ok b.core (b.startLookup h .getPeers (b.table.closest h k)).core :=
    .start _ hok
  rw [hcore] at hstart
  exact .single hstart

lemma setTorrentActive_moves (h : NodeId) (active : Bool) :
    Moves free ok a (a.setTorrentActive h active) :=
  Moves.ite (modifyTorrent_moves ..) ((modifyTorrent_moves ..).trans (removeLookup_moves _))

/-! ## Commands -/

/-- A command looks for the peers of a hash that it opens, or that was added before. -/
lemma handleCmd_moves {cmd : DhtCmd} (hopen : ∀ h, cmd.Opens h → ok .getPeers h)
    (hold : ∀ h ∈ a.torrents.keys, ok .getPeers h) : Moves free ok a (a.handleCmd now cmd) := by
  cases cmd with
  | addTorrent h port active =>
    let b := a.removeLookup (a.torrentLookup h)
    have hset : Moves free ok a
        { b with torrents := b.torrents.insert h ⟨port, active, now - reannounceInterval, none⟩ } :=
      (removeLookup_moves _).trans (.one (.torrent _ (.inr (hopen h rfl))))
    exact Moves.ite (hset.trans ((startGetPeers_moves (hopen h rfl)).trans kickLookups_moves)) hset
  | removeTorrent h =>
    have hforget : Moves free ok a { a with torrents := a.torrents.erase h } := .one (.forget h)
    exact hforget.trans (removeLookup_moves _)
  | setActive h active =>
    have hset : Moves free ok a (a.setTorrentActive h active) := setTorrentActive_moves h active
    cases active with
    | false => exact hset
    | true => exact hset.trans ((startGetPeers_moves (hopen h rfl)).trans kickLookups_moves)
  | setAllActive active =>
    have hall : Moves free ok a (a.torrents.keys.foldl (fun a h =>
        let a := a.setTorrentActive h active
        if active then a.startGetPeers now h else a) a) := by
      refine Moves.foldl _ fun b h hh => ?_
      have hset : Moves free ok b (b.setTorrentActive h active) := setTorrentActive_moves h active
      exact Moves.ite (hset.trans (startGetPeers_moves (hold h hh))) hset
    exact Moves.ite (hall.trans kickLookups_moves) hall

end DhtActor

/-! ## The table -/

namespace RoutingTable

variable {t t' : RoutingTable}

lemma modifyNode_length {p : Node → Bool} {f : Node → Node} {g : Bucket → Bucket}
    {bs bs' : List Bucket} (h : modifyNode p f g bs = some bs') : bs'.length = bs.length := by
  induction bs generalizing bs' with
  | nil => cases h
  | cons b bs ih =>
    simp only [modifyNode] at h
    split at h
    · cases h
      rfl
    · obtain ⟨bs₁, h₁, rfl⟩ := map_eq_some_iff.1 h
      simp [ih h₁]

lemma modifyNode_getD_length {p : Node → Bool} {f : Node → Node} {g : Bucket → Bucket}
    (bs : List Bucket) : ((modifyNode p f g bs).getD bs).length = bs.length := by
  cases h : modifyNode p f g bs with
  | none => rfl
  | some bs' => exact modifyNode_length h

lemma insertLoop_length {node : CompactNode} {fuel : Nat} {r : InsertResult}
    (h : t.insertLoop node now fuel = some (t', r)) : t.buckets.length ≤ t'.buckets.length := by
  induction fuel generalizing t with
  | zero => cases h
  | succ fuel ih =>
    obtain ⟨i, -, h⟩ := bind_eq_some_iff.1 h
    obtain ⟨b, hb, h⟩ := bind_eq_some_iff.1 h
    have hi := (List.getElem?_eq_some_iff.1 hb).1
    dsimp only at h
    split at h
    · cases h
      simp
    split at h
    · refine le_trans ?_ (ih h)
      simp only [length_append, length_take, length_cons, length_drop]
      omega
    split at h
    · cases h
      simp
    split at h <;> cases h <;> exact le_rfl

lemma touchBucket_length {id : NodeId} (h : t.touchBucket id now = some t') :
    t'.buckets.length = t.buckets.length := by
  obtain ⟨i, -, rfl⟩ := map_eq_some_iff.1 h
  simp

/-- Buckets are split and never joined. -/
lemma insert_length {node : CompactNode} {r : InsertResult} (h : t.insert node now = some (t', r)) :
    t.buckets.length ≤ t'.buckets.length := by
  unfold insert at h
  split at h
  · cases h
    exact le_rfl
  split at h
  · cases h
    exact le_rfl
  split at h
  · rename_i bs hbs
    obtain ⟨t₁, h₁, heq⟩ := map_eq_some_iff.1 h
    cases heq
    exact le_of_eq ((touchBucket_length h₁).trans (modifyNode_length hbs)).symm
  · exact insertLoop_length h

lemma seenQuery_length {id : NodeId} {addr : SocketAddr} (h : t.seenQuery id addr now = some t') :
    t.buckets.length ≤ t'.buckets.length := by
  unfold seenQuery at h
  split at h
  · rename_i bs hbs
    cases h
    exact le_of_eq (modifyNode_length hbs).symm
  · obtain ⟨r, hr, rfl⟩ := map_eq_some_iff.1 h
    exact insert_length hr

lemma seenResponse_length {id : NodeId} {addr : SocketAddr}
    (h : t.seenResponse id addr now = some t') : t.buckets.length ≤ t'.buckets.length := by
  unfold seenResponse at h
  split at h
  · rename_i bs hbs
    exact le_of_eq ((touchBucket_length h).trans (modifyNode_length hbs)).symm
  · obtain ⟨r, hr, rfl⟩ := map_eq_some_iff.1 h
    exact le_trans (insert_length hr) (le_of_eq (modifyNode_getD_length _).symm)

end RoutingTable

namespace DhtActor

lemma learn_length {nodes : List CompactNode} {t t' : RoutingTable}
    (h : learn now t nodes = some t') : t.buckets.length ≤ t'.buckets.length := by
  induction nodes generalizing t with
  | nil =>
    cases h
    exact le_rfl
  | cons node nodes ih =>
    obtain ⟨r, hr, h⟩ := bind_eq_some_iff.1 h
    exact le_trans (RoutingTable.insert_length hr) (ih h)

lemma table_moves {t : RoutingTable} (h : a.table.buckets.length ≤ t.buckets.length)
    (hc : a'.core = { a.core with table := t }) : Moves True ok a a' :=
  .one (hc ▸ .table t trivial h)

/-! ## Datagrams -/

lemma lookupTimeout_moves (id : Nat) (addr : SocketAddr) :
    Moves free ok a (a.lookupTimeout id addr) := by
  unfold lookupTimeout
  split
  · rename_i l hl
    exact setLookup_moves hl (l.onTimeout_target addr)
  · exact .refl

lemma onLookupResponse_moves (id : Nat) (src : SocketAddr) (r : Response) :
    Moves free ok a (a.onLookupResponse now id src r) := by
  unfold onLookupResponse
  split
  · exact .refl
  · rename_i l hl
    have hset : Moves free ok a (a.setLookup id (l.onResponse src r.id r).1) :=
      setLookup_moves hl (l.onResponse_target src r.id r)
    refine (hset.trans (Moves.of_eq ?_)).trans (driveLookup_moves id)
    dsimp only
    split
    · exact peerSinkIf_core _ _ _
    · rfl

/-- A response may change the table, start the lookup for the own id, and let a lookup go on. -/
lemma onResponse_moves {t : Bytes} {r : Response} {src : SocketAddr}
    (h : a.onResponse now t r src = some a') : Moves True ok a a' := by
  unfold DhtActor.onResponse at h
  split at h
  · cases h
    exact .refl
  obtain ⟨t₁, h₁, h⟩ := bind_eq_some_iff.1 h
  obtain ⟨t₂, h₂, rfl⟩ := map_eq_some_iff.1 h
  have hlen := le_trans (RoutingTable.seenResponse_length h₁) (learn_length h₂)
  have htable : Moves True ok a { a with pending := a.pending.erase (t, src), table := t₂ } :=
    table_moves hlen rfl
  split
  · exact Moves.ite (htable.trans (startFindSelf_moves.trans kickLookups_moves)) htable
  · exact htable.trans (onLookupResponse_moves _ src r)
  · exact htable

lemma onError_moves (t : Bytes) (src : SocketAddr) : Moves free ok a (a.onError t src) := by
  unfold onError
  split
  · exact .refl
  have hpending : Moves free ok a { a with pending := a.pending.erase (t, src) } := Moves.of_eq rfl
  dsimp only
  split
  · exact hpending.trans (lookupTimeout_moves _ src)
  · exact hpending

lemma answer_not_query (sha1 : Bytes → Digest) (src : SocketAddr) (q q' : Query) :
    (a.answer sha1 now src q).2 ≠ .query q' := by
  cases q with
  | announcePeer =>
    simp only [answer]
    split <;> simp
  | _ => simp [answer]

/-- No packet adds a torrent or starts a lookup for peers. -/
lemma onPacket_moves {sha1 : Bytes → Digest} {src : SocketAddr} {d : Datagram}
    (h : a.onPacket sha1 now src d = some a') : Moves True ok a a' := by
  unfold onPacket at h
  split at h
  · rename_i t q
    obtain ⟨table, ht, rfl⟩ := map_eq_some_iff.1 h
    have htable : Moves True ok a { a with
        table, store := (answer sha1 { a with table } now src q).1 } :=
      table_moves (RoutingTable.seenQuery_length ht) rfl
    exact htable.trans (sendMsg_moves src fun q' hq' => absurd hq' (answer_not_query sha1 src q q'))
  · exact onResponse_moves h
  · cases h
    exact onError_moves _ src
  · cases h
    exact sendMsg_moves src nofun
  · cases h
    exact sendMsg_moves src nofun
  · cases h
    exact .refl

/-! ## The tick -/

/-- The table and the lookup of a query are told that it timed out. -/
lemma expireOne_moves (key : Bytes × SocketAddr) : Moves True ok a (a.expireOne now key) := by
  unfold expireOne
  split
  · exact .refl
  have hlen : a.table.buckets.length ≤ (a.table.timedOut key.2).buckets.length :=
    le_of_eq (RoutingTable.modifyNode_getD_length _).symm
  have htable : Moves True ok a
      { a with pending := a.pending.erase key, table := a.table.timedOut key.2 } :=
    table_moves hlen rfl
  dsimp only
  split
  · exact htable.trans (table_moves (le_of_eq (RoutingTable.modifyNode_getD_length _).symm) rfl)
  · exact htable.trans (lookupTimeout_moves _ key.2)
  · exact htable

lemma expirePending_moves (now : Int) : Moves True ok a (a.expirePending now) :=
  Moves.foldl _ fun _ key _ => expireOne_moves key

/-- A tick up to its refreshing of buckets. -/
def tickStart (a : DhtActor) (e : DhtEnv) : DhtActor :=
  let a := { a with tokens := a.tokens.maybeRotate e.now e.secret }.expirePending e.now
  if !a.bootstrapped && !a.table.isEmpty then a.startFindSelf else a

lemma tickStart_moves (e : DhtEnv) : Moves True ok a (a.tickStart e) := by
  have htokens : Moves True ok a { a with tokens := a.tokens.maybeRotate e.now e.secret } :=
    Moves.of_eq rfl
  have hexp := htokens.trans (expirePending_moves e.now)
  exact Moves.ite (hexp.trans startFindSelf_moves) hexp

lemma bootstrap_moves (nodes : List SocketAddr) : Moves free ok a (a.bootstrap now nodes) := by
  have hpings : Moves free ok a (nodes.foldl (fun a addr => a.sendPing now addr none) a) :=
    Moves.foldl _ fun _ addr _ => sendPing_moves addr none
  exact Moves.ite hpings (startFindSelf_moves.trans kickLookups_moves)

lemma refreshBuckets_moves (hok : ∀ target, ok .findNode target) (e : DhtEnv) :
    Moves free ok a (a.refreshBuckets e) :=
  Moves.foldl _ fun _ target _ => .one (.start _ (hok target))

/-- Only torrents that were added are looked for again. -/
lemma reannounce_moves (hold : ∀ h ∈ a.torrents.keys, ok .getPeers h) :
    Moves free ok a (a.reannounce now) := by
  refine Moves.foldl _ fun _ h hh => startGetPeers_moves (hold h ?_)
  obtain ⟨x, hx, rfl⟩ := mem_map.1 hh
  exact mem_map_of_mem (mem_of_mem_filter hx)

/-! ## The steps of the actor -/

/-- What the loop of the actor waits for. -/
inductive ActorAct where
  | command (cmd : DhtCmd)
  | pingNode (addr : SocketAddr)
  | packet (src : SocketAddr) (d : Datagram)
  | tick

def step (sha1 : Bytes → Digest) (a : DhtActor) : DhtEnv × ActorAct → Option DhtActor
  | (e, .command cmd) => some (a.handleCmd e.now cmd)
  | (e, .pingNode addr) => some (a.sendPing e.now addr none)
  | (e, .packet src d) => a.onPacket sha1 e.now src d
  | (e, .tick) => some (a.tick e)

end DhtActor

end Dht

end BitRev
