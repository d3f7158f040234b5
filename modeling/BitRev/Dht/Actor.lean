import BitRev.Dht.Lookup
import BitRev.Session.State

/-!
# The DHT actor

`dht/mod.rs`: one task owns the routing table, the lookups and the torrents it announces. It takes
commands from the session, datagrams from the network and a tick twice a second, one at a time.
`announce.rs` keeps what others announce to us and `token.rs` the tokens they need for that.

`sent`, `started` and `found` record the messages sent, the lookups started and the peers handed to
the session. A datagram is given as what it decodes to. Statistics and the file `dht.dat` are left
out. Where the code goes through a hash map, the model goes through the list that stands for it.
-/

namespace BitRev.Dht

def queryTimeout : Int := 5 * 1000

def reannounceInterval : Int := 15 * 60 * 1000

/-! ## What others announce -/

def announceTtl : Int := 30 * 60 * 1000

def maxPeersPerHash : Nat := 50

def maxAnnounceHashes : Nat := 1024

structure PeerEntry where
  addr : SocketAddr
  seen : Int

structure AnnounceStore where
  peers : List (NodeId × List PeerEntry) := []

namespace AnnounceStore

variable (s : AnnounceStore)

def expire (now : Int) : AnnounceStore :=
  ⟨(s.peers.map fun x => (x.1, x.2.filter fun p => since now p.seen < announceTtl)).filter
    fun x => !x.2.isEmpty⟩

def addPeer (list : List PeerEntry) (addr : SocketAddr) (now : Int) : List PeerEntry :=
  match modifyFirst (fun p : PeerEntry => p.addr = addr) (fun p => { p with seen := now }) list with
  | some list => list
  | none =>
    let list := if maxPeersPerHash ≤ list.length then
      (list.insertionSort fun a b => a.seen ≤ b.seen).tail else list
    list ++ [⟨addr, now⟩]

/-- Make room for a new hash: the one whose first peer is the oldest goes. -/
def evict (now : Int) : AnnounceStore :=
  match minByKey (fun a b : Int => a ≤ b)
    (fun x : NodeId × List PeerEntry => (x.2.head?.map (·.seen)).getD now) s.peers with
  | some oldest => ⟨s.peers.filter (·.1 ≠ oldest.1)⟩
  | none => s

def announce (h : NodeId) (addr : SocketAddr) (now : Int) : AnnounceStore :=
  if addr.port = 0 then s
  else
    let s := s.expire now
    let known := s.peers.any (·.1 = h)
    let s := if !known && maxAnnounceHashes ≤ s.peers.length then s.evict now else s
    match modifyFirst (fun x : NodeId × List PeerEntry => x.1 = h)
      (fun x => (x.1, addPeer x.2 addr now)) s.peers with
    | some peers => ⟨peers⟩
    | none => ⟨s.peers ++ [(h, addPeer [] addr now)]⟩

/-- The announced peers of a hash, once the old ones are gone. -/
def get (h : NodeId) : List SocketAddr :=
  ((s.peers.lookup h).map fun list => list.map (·.addr)).getD []

end AnnounceStore

/-! ## Tokens -/

def tokenRotate : Int := 5 * 60 * 1000

structure TokenSecrets where
  current : Bytes
  previous : Bytes
  rotatedAt : Int

def octets : IpAddr → Bytes
  | .v4 addr => toBe 4 addr.toNat
  | .v6 addr => toBe 16 addr.toNat

namespace TokenSecrets

variable (sha1 : Bytes → Digest)

def hashToken (secret : Bytes) (ip : IpAddr) : Bytes := (sha1 (secret ++ octets ip)).toBytes

/-- `rotate`, with the new secret given. -/
def maybeRotate (t : TokenSecrets) (now : Int) (secret : Bytes) : TokenSecrets :=
  if tokenRotate ≤ since now t.rotatedAt then ⟨secret, t.current, now⟩ else t

def issue (t : TokenSecrets) (ip : IpAddr) : Bytes := hashToken sha1 t.current ip

def validate (t : TokenSecrets) (ip : IpAddr) (token : Bytes) : Bool :=
  token = hashToken sha1 t.current ip || token = hashToken sha1 t.previous ip

end TokenSecrets

/-! ## The actor -/

inductive PendingKind where
  | ping (replacement : Option CompactNode)
  | lookup (lookupId : Nat)
  | announce

/-- A query that waits for its answer. -/
structure Pending where
  sent : Int
  kind : PendingKind

structure TorrentDht where
  listenPort : Nat
  active : Bool
  lastAnnounce : Int
  lookupId : Option Nat

structure DhtActor where
  table : RoutingTable
  tokens : TokenSecrets
  store : AnnounceStore := {}
  pending : AList fun _ : Bytes × SocketAddr => Pending := ∅
  lookups : AList fun _ : Nat => Lookup := ∅
  torrents : AList fun _ : NodeId => TorrentDht := ∅
  nextTid : Nat := 0
  nextLookup : Nat := 0
  bootstrapped : Bool := false
  sent : List (SocketAddr × KrpcMessage) := []
  started : List (LookupKind × NodeId) := []
  found : List (NodeId × List SocketAddr) := []

/-- The time of a step and the random bytes it draws. -/
structure DhtEnv where
  now : Int := 0
  secret : Bytes := []
  ids : Nat → NodeId := fun _ => 0

namespace DhtActor

section

variable (a : DhtActor)

def sendMsg (addr : SocketAddr) (msg : KrpcMessage) : DhtActor :=
  { a with sent := a.sent ++ [(addr, msg)] }

def sendQuery (now : Int) (addr : SocketAddr) (q : Query) (kind : PendingKind) : DhtActor :=
  let t := toBe 2 a.nextTid
  { a with
    nextTid := (a.nextTid + 1) % 2 ^ 16
    pending := a.pending.insert (t, addr) ⟨now, kind⟩ }.sendMsg addr ⟨t, .query q⟩

def sendPing (now : Int) (addr : SocketAddr) (replacement : Option CompactNode) : DhtActor :=
  a.sendQuery now addr (.ping a.table.id) (.ping replacement)

/-- Hand peers to the session. -/
def peerSink (h : NodeId) (peers : List SocketAddr) : DhtActor :=
  { a with found := a.found ++ [(h, peers)] }

def peerSinkIf (h : NodeId) (peers : List SocketAddr) : DhtActor :=
  if peers.isEmpty then a else a.peerSink h peers

def removeLookup (id : Option Nat) : DhtActor :=
  match id with
  | some id => { a with lookups := a.lookups.erase id }
  | none => a

def modifyTorrent (h : NodeId) (f : TorrentDht → TorrentDht) : DhtActor :=
  match a.torrents.lookup h with
  | some t => { a with torrents := a.torrents.insert h (f t) }
  | none => a

def torrentLookup (h : NodeId) : Option Nat :=
  (a.torrents.lookup h).bind (·.lookupId)

def startLookup (target : NodeId) (kind : LookupKind) (seeds : List CompactNode) : DhtActor :=
  { a with
    nextLookup := (a.nextLookup + 1) % 2 ^ 64
    lookups := a.lookups.insert a.nextLookup (.new target kind seeds)
    started := a.started ++ [(kind, target)] }

def startFindSelf : DhtActor :=
  if a.bootstrapped then a
  else { a with bootstrapped := true }.startLookup a.table.id .findNode (a.table.closest a.table.id k)

def startGetPeers (now : Int) (h : NodeId) : DhtActor :=
  let a := a.removeLookup (a.torrentLookup h)
  let a := { a with store := a.store.expire now }
  let a := a.peerSinkIf h (a.store.get h)
  let id := a.nextLookup
  (a.startLookup h .getPeers (a.table.closest h k)).modifyTorrent h
    fun t => { t with lookupId := some id }

def announce (now : Int) (l : Lookup) : DhtActor :=
  match a.torrents.lookup l.target with
  | none => a
  | some t =>
    if !t.active || t.listenPort = 0 then a
    else
      (l.announceTargets.foldl (fun a x => a.sendQuery now x.1.addr
        (.announcePeer a.table.id l.target t.listenPort.toUInt16 x.2 false) .announce) a).modifyTorrent l.target
        fun t => { t with lastAnnounce := now, lookupId := none }

def finishLookup (now : Int) (id : Nat) : DhtActor :=
  match a.lookups.lookup id with
  | none => a
  | some l =>
    let a := a.removeLookup (some id)
    if l.kind ≠ .getPeers then a else (a.peerSinkIf l.target l.values).announce now l

def lookupQuery (l : Lookup) : Query :=
  match l.kind with
  | .findNode => .findNode a.table.id l.target
  | .getPeers => .getPeers a.table.id l.target

def setLookup (id : Nat) (l : Lookup) : DhtActor :=
  { a with lookups := a.lookups.insert id l }

/-- The loop of `drive_lookup`: it goes on only after it has asked a node not asked before. -/
def driveLoop (a : DhtActor) (now : Int) (id : Nat) : Nat → DhtActor
  | 0 => a
  | fuel + 1 =>
    match a.lookups.lookup id with
    | none => a
    | some l =>
      if l.isDone then a.finishLookup now id
      else
        let (l', queries) := l.nextQueries
        let a := a.setLookup id l'
        if queries.isEmpty then (if l'.isDone then a.finishLookup now id else a)
        else
          driveLoop (queries.foldl (fun a node =>
            a.sendQuery now node.addr (a.lookupQuery l') (.lookup id)) a) now id fuel

def driveLookup (now : Int) (id : Nat) : DhtActor :=
  a.driveLoop now id (((a.lookups.lookup id).map (·.contactList.length)).getD 0 + 1)

def kickLookups (now : Int) : DhtActor :=
  a.lookups.keys.foldl (fun a id => a.driveLookup now id) a

/-! ## Commands -/

def setTorrentActive (h : NodeId) (active : Bool) : DhtActor :=
  let a' := a.modifyTorrent h fun t =>
    { t with active, lookupId := if active then t.lookupId else none }
  if active then a' else a'.removeLookup (a.torrentLookup h)

def handleCmd (now : Int) : DhtCmd → DhtActor
  | .addTorrent h listenPort active =>
    let a := a.removeLookup (a.torrentLookup h)
    let a := { a with
      torrents := a.torrents.insert h ⟨listenPort, active, now - reannounceInterval, none⟩ }
    if active then (a.startGetPeers now h).kickLookups now else a
  | .removeTorrent h =>
    let lookup := a.torrentLookup h
    { a with torrents := a.torrents.erase h }.removeLookup lookup
  | .setActive h active =>
    let a := a.setTorrentActive h active
    if active then (a.startGetPeers now h).kickLookups now else a
  | .setAllActive active =>
    let a := a.torrents.keys.foldl (fun a h =>
      let a := a.setTorrentActive h active
      if active then a.startGetPeers now h else a) a
    if active then a.kickLookups now else a

end

/-! ## Datagrams -/

inductive Datagram where
  | message (msg : KrpcMessage)
  /-- A query with a method we do not know; its transaction id can be read. -/
  | unknownMethod (t : Option Bytes)
  /-- Anything else, with its transaction id if it is a query and that can be read. -/
  | malformed (t : Option Bytes)

variable (sha1 : Bytes → Digest)

variable (a : DhtActor)

def answer (now : Int) (src : SocketAddr) : Query → AnnounceStore × Payload
  | .ping _ => (a.store, .response { id := a.table.id })
  | .findNode _ target => (a.store, .response { id := a.table.id, nodes := a.table.closest target k })
  | .getPeers _ h =>
    let store := a.store.expire now
    let values := store.get h
    (store, .response
      { id := a.table.id, values, token := some (a.tokens.issue sha1 src.ip)
        nodes := if values.isEmpty then a.table.closest h k else [] })
  | .announcePeer _ h port token impliedPort =>
    if a.tokens.validate sha1 src.ip token then
      (a.store.announce h ⟨src.ip, if impliedPort then src.port else port⟩ now, .response { id := a.table.id })
    else (a.store, .error errProtocol "bad token")

def onQuery (now : Int) (t : Bytes) (q : Query) (src : SocketAddr) : Option DhtActor :=
  (a.table.seenQuery q.id src now).map fun table =>
    let a := { a with table }
    let reply := a.answer sha1 now src q
    { a with store := reply.1 }.sendMsg src ⟨t, reply.2⟩

def lookupInfoHash (id : Nat) : Option NodeId :=
  ((a.torrents.entries.find? fun x => x.2.lookupId = some id).map (·.1)).or
    ((a.lookups.lookup id).bind fun l => if l.kind = .getPeers then some l.target else none)

def onLookupResponse (now : Int) (id : Nat) (src : SocketAddr) (r : Response) : DhtActor :=
  match a.lookups.lookup id with
  | none => a
  | some l =>
    let (l, new) := l.onResponse src r.id r
    let a := a.setLookup id l
    let a := match a.lookupInfoHash id with
      | some h => a.peerSinkIf h new
      | none => a
    a.driveLookup now id

def learn (now : Int) : RoutingTable → List CompactNode → Option RoutingTable
  | t, [] => some t
  | t, node :: nodes => (t.insert node now).bind fun r => learn now r.1 nodes

def onResponse (now : Int) (t : Bytes) (r : Response) (src : SocketAddr) : Option DhtActor :=
  match a.pending.lookup (t, src) with
  | none => some a
  | some pending =>
    (a.table.seenResponse r.id src now).bind fun table => (learn now table r.nodes).map fun table =>
      let a := { a with pending := a.pending.erase (t, src), table }
      match pending.kind with
      | .ping _ =>
        if !a.bootstrapped && !a.table.isEmpty then a.startFindSelf.kickLookups now else a
      | .lookup id => a.onLookupResponse now id src r
      | .announce => a

/-- A lookup no longer waits for an address. -/
def lookupTimeout (id : Nat) (addr : SocketAddr) : DhtActor :=
  match a.lookups.lookup id with
  | some l => a.setLookup id (l.onTimeout addr)
  | none => a

def onError (t : Bytes) (src : SocketAddr) : DhtActor :=
  match a.pending.lookup (t, src) with
  | none => a
  | some pending =>
    let a := { a with pending := a.pending.erase (t, src) }
    match pending.kind with
    | .lookup id => a.lookupTimeout id src
    | _ => a

def onPacket (now : Int) (src : SocketAddr) : Datagram → Option DhtActor
  | .message ⟨t, .query q⟩ => a.onQuery sha1 now t q src
  | .message ⟨t, .response r⟩ => a.onResponse now t r src
  | .message ⟨t, .error _ _⟩ => some (a.onError t src)
  | .unknownMethod (some t) => some (a.sendMsg src ⟨t, .error errMethod "Method Unknown"⟩)
  | .malformed (some t) => some (a.sendMsg src ⟨t, .error errProtocol "Protocol Error"⟩)
  | _ => some a

/-! ## The tick -/

def expireOne (now : Int) (key : Bytes × SocketAddr) : DhtActor :=
  match a.pending.lookup key with
  | none => a
  | some pending =>
    let a := { a with pending := a.pending.erase key, table := a.table.timedOut key.2 }
    match pending.kind with
    | .ping (some node) => { a with table := a.table.replace key.2 node now }
    | .lookup id => a.lookupTimeout id key.2
    | _ => a

def expirePending (now : Int) : DhtActor :=
  ((a.pending.entries.filter fun x => queryTimeout ≤ since now x.2.sent).map (·.1)).foldl
    (fun a key => a.expireOne now key) a

def refreshBuckets (e : DhtEnv) : DhtActor :=
  (a.table.staleBuckets e.now e.ids).foldl
    (fun a target => a.startLookup target .findNode (a.table.closest target k)) a

def reannounce (now : Int) : DhtActor :=
  ((a.torrents.entries.filter fun x =>
    x.2.active && reannounceInterval ≤ since now x.2.lastAnnounce).map (·.1)).foldl
    (fun a h => a.startGetPeers now h) a

def tick (e : DhtEnv) : DhtActor :=
  let a := { a with tokens := a.tokens.maybeRotate e.now e.secret }
  let a := a.expirePending e.now
  let a := if !a.bootstrapped && !a.table.isEmpty then a.startFindSelf else a
  ((a.refreshBuckets e).reannounce e.now).kickLookups e.now

def bootstrap (now : Int) (nodes : List SocketAddr) : DhtActor :=
  if a.table.isEmpty then nodes.foldl (fun a addr => a.sendPing now addr none) a
  else a.startFindSelf.kickLookups now

end DhtActor

end BitRev.Dht
