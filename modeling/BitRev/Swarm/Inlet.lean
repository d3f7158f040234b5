import BitRev.Session.Changes
import BitRev.Swarm.Pex

/-!
# The swarm of a session

A session with the connections of its torrents: `PeerInlet::add_peers` and `connect_peer`
(`session.rs`), through which the addresses of every discovery source go, the peers that trackers
name (`tracker_peers.rs`), incoming connections, and `try_spawn_peer` with the handler a connection
gets (`peer_connection.rs`).

A connection is made for a torrent slot and reads it when its task first runs. The slot of a magnet
holds a placeholder until the torrent is promoted.
-/

namespace BitRev

inductive SlotRef where
  | magnet (p : Nat)
  | torrent (r : Nat)

namespace SlotRef

variable (s : Session)

def get : SlotRef → Torrent
  | .magnet p => s.pendingTorrent p
  | .torrent r => (s.sess r).torrent

def cell : SlotRef → Nat
  | .magnet p => (s.pend p).ctl
  | .torrent r => (s.sess r).ctl

def infoHash : SlotRef → Digest
  | .magnet p => (s.pend p).placeholder.infoHash
  | .torrent r => (s.sess r).torrent.infoHash

def early : SlotRef → Bool
  | .magnet p => (s.pend p).slot.isNone
  | .torrent _ => false

def Exists : SlotRef → Prop
  | .magnet p => p < s.nextPend
  | .torrent r => r < s.nextSess

instance (s : Session) (slot : SlotRef) : Decidable (slot.Exists s) := by
  rcases slot <;> unfold Exists <;> infer_instance

end SlotRef

/-- The slot that a connection for an info hash gets. -/
def Session.slotOf (s : Session) (h : Digest) : Option SlotRef :=
  match s.torrents.lookup h with
  | some r => some (.torrent r)
  | none => (s.pending.lookup h).map .magnet

structure Conn where
  infoHash : Digest
  slot : SlotRef
  /-- The peers of the torrent. -/
  cell : Nat
  peer : PeerAddr
  outgoing : Bool
  encrypted : Bool := false
  utp : Bool := false
  /-- The extensions, once the task of the connection runs. -/
  ext : Option Extensions := none
  /-- The slot held a placeholder when they were bound. -/
  early : Bool := false

structure Swarm where
  session : Session
  maxPeersPerTorrent : Nat
  maxPeersGlobal : Nat
  /-- `peer_states`, by the cells of the torrent. -/
  peers : Nat → PeerStates := fun _ => {}
  conns : List Conn := []
  /-- The addresses that were dialed, and where they came from. -/
  dialed : List (Digest × DiscoverySource × PeerAddr) := []
  /-- The `ut_pex` messages that were sent, and to whom. -/
  pexSent : List (Digest × PeerAddr × PexMessage) := []

structure SwarmEnv where
  session : Env := {}
  now : Nat := 0
  /-- The addresses the IP filter blocks. -/
  blocks : PeerAddr → Bool := fun _ => false

namespace Swarm

variable (w : Swarm)

/-- Start a connection; `none` if it is refused. -/
def trySpawnPeer (e : SwarmEnv) (conn : Conn) : Option Swarm :=
  let ps := w.peers conn.cell
  if w.maxPeersGlobal ≤ w.conns.length ||
      conn.peer ∉ ps.states && w.maxPeersPerTorrent ≤ ps.len ||
      ps.isBanned e.now conn.peer || e.blocks conn.peer then none
  else
    (ps.insertLive e.now conn.peer).map fun ps =>
      { w with peers := Function.update w.peers conn.cell ps, conns := w.conns ++ [conn] }

def outgoing (h : Digest) (slot : SlotRef) (peer : PeerAddr) : Conn :=
  { infoHash := h, slot, cell := slot.cell w.session, peer, outgoing := true }

def connectPeer (e : SwarmEnv) (h : Digest) (addr : PeerAddr) : Option Swarm :=
  (w.session.slotOf h).bind fun slot => w.trySpawnPeer e (w.outgoing h slot addr)

/-- The loop of `add_peers`. -/
def addAll (w : Swarm) (e : SwarmEnv) (h : Digest) (source : DiscoverySource) (cell : Nat) :
    List PeerAddr → Swarm
  | [] => w
  | addr :: addrs =>
    if e.blocks addr then w.addAll e h source cell addrs
    else if w.maxPeersGlobal ≤ w.conns.length || w.maxPeersPerTorrent ≤ (w.peers cell).len then w
    else
      match (w.peers cell).addIfNotSeen e.now addr with
      | none => w.addAll e h source cell addrs
      | some ps =>
        let w := { w with peers := Function.update w.peers cell ps }
        match w.connectPeer e h addr with
        | none => w.addAll e h source cell addrs
        | some w =>
          { w with dialed := w.dialed ++ [(h, source, addr)] }.addAll e h source cell addrs

/-- `add_peers`: addresses from a discovery source. -/
def addPeers (e : SwarmEnv) (h : Digest) (source : DiscoverySource)
    (addrs : List PeerAddr) : Swarm :=
  match w.session.slotOf h with
  | none => w
  | some slot =>
    if (slot.get w.session).allowsSource source &&
        (w.session.sig.ctl (slot.cell w.session)).downloadState = .downloading then
      w.addAll e h source (slot.cell w.session) addrs
    else w

/-- `process_peers`: what a tracker of the torrent `r` has answered. -/
def processPeers (w : Swarm) (e : SwarmEnv) (h : Digest) (slot : SlotRef) :
    List PeerAddr → Swarm
  | [] => w
  | addr :: addrs =>
    let cell := slot.cell w.session
    if (w.session.sig.ctl cell).downloadState ≠ .downloading || addr ∈ (w.peers cell).states then
      w.processPeers e h slot addrs
    else
      match w.trySpawnPeer e (w.outgoing h slot addr) with
      | none => w.processPeers e h slot addrs
      | some w => { w with dialed := w.dialed ++ [(h, DiscoverySource.tracker, addr)] }.processPeers e h slot addrs

/-- The task of a connection first runs: the handler is made. -/
def start (i : Nat) (conn : Conn) : Swarm :=
  let conn' :=
    { conn with
      ext := some (.bind (conn.slot.get w.session).allowsPex conn.peer)
      early := conn.slot.early w.session }
  let note : PeerState → PeerState := fun st =>
    { st with
      outgoing := conn.outgoing, encrypted := st.encrypted || conn.encrypted
      utp := st.utp || conn.utp }
  { w with
    conns := w.conns.set i conn'
    peers := Function.update w.peers conn.cell ((w.peers conn.cell).modify conn.peer note) }

/-- A connection's extensions are changed and have sent something. -/
def talk (i : Nat) (conn : Conn) (x : Extensions × List PexMessage) : Swarm :=
  { w with
    conns := w.conns.set i { conn with ext := some x.1 }
    pexSent := w.pexSent ++ x.2.map fun msg => (conn.infoHash, conn.peer, msg) }

/-- `PeerSlotGuard`: a connection ends. -/
def close (i : Nat) (conn : Conn) : Swarm :=
  let ps := w.peers conn.cell
  { w with
    conns := w.conns.eraseIdx i
    peers := Function.update w.peers conn.cell
      { ps with states := ps.states.erase conn.peer } }

end Swarm

inductive SwarmAct where
  | session (a : Act)
  /-- A discovery source other than a peer delivers addresses. -/
  | deliver (h : Digest) (source : DiscoverySource) (addrs : List PeerAddr)
  /-- A tracker of a torrent in use answers. -/
  | tracker (r : Nat) (slot : SlotRef) (addrs : List PeerAddr)
  /-- A peer has connected to the torrent of a slot. -/
  | incoming (slot : SlotRef) (peer : PeerAddr) (encrypted utp : Bool)
  | start (i : Nat)
  /-- The extension handshake of a peer, with its entry for `ut_pex`. -/
  | handshake (i : Nat) (pexId : Option Int)
  /-- A `ut_pex` message of a peer. -/
  | pex (i : Nat) (msg : Option PexMessage)
  /-- The extension ticker of a connection. -/
  | tick (i : Nat)
  | bitfield (i : Nat) (bits : List Bool)
  | ban (cell : Nat) (peer : PeerAddr)
  | close (i : Nat)

namespace Swarm

def isSlotOf (s : Session) (r : Nat) (slot : SlotRef) : Bool :=
  match slot with
  | .torrent r' => r' = r
  | .magnet p => (s.pend p).slot = some r

/-- The connection `i`, if its handler is made. -/
def running (w : Swarm) (i : Nat) : Option (Conn × Extensions) :=
  (w.conns[i]?).bind fun conn => conn.ext.map fun ext => (conn, ext)

def pieceCount (w : Swarm) (conn : Conn) : Nat := (conn.slot.get w.session).pieceHashes.length

def step (x : Ext) (w : Swarm) : SwarmEnv × SwarmAct → Option Swarm
  | (e, .session a) =>
    (w.session.step x (e.session, a)).map fun session => { w with session }
  | (e, .deliver h source addrs) => some (w.addPeers e h source addrs)
  | (e, .tracker r slot addrs) =>
    if r < w.session.nextSess ∧ (w.session.sess r).running ∧ slot.Exists w.session ∧
        isSlotOf w.session r slot = true then
      some (w.processPeers e (w.session.sess r).torrent.infoHash slot addrs)
    else none
  | (e, .incoming slot peer encrypted utp) =>
    let cell := slot.cell w.session
    if slot.Exists w.session ∧ w.session.state cell ≠ .queued then
      w.trySpawnPeer e
        { infoHash := slot.infoHash w.session, slot, cell, peer, outgoing := false, encrypted, utp }
    else none
  | (_, .start i) =>
    (w.conns[i]?).bind fun conn => if conn.ext.isNone then some (w.start i conn) else none
  | (e, .handshake i pexId) =>
    (w.running i).map fun (conn, ext) =>
      w.talk i conn (ext.onHandshake pexId e.now (w.peers conn.cell) (w.pieceCount conn))
  | (e, .pex i msg) =>
    (w.running i).map fun (conn, ext) =>
      let (ext, addrs) := ext.onPex e.now msg
      let w := w.talk i conn (ext, [])
      if addrs = [] then w else w.addPeers e conn.infoHash .pex addrs
  | (e, .tick i) =>
    (w.running i).map fun (conn, ext) =>
      w.talk i conn (ext.collectTicks e.now (w.peers conn.cell) (w.pieceCount conn))
  | (_, .bitfield i bits) =>
    (w.conns[i]?).map fun conn =>
      { w with
        peers := Function.update w.peers conn.cell
          ((w.peers conn.cell).modify conn.peer fun st => { st with bitfield := bits }) }
  | (e, .ban cell peer) =>
    some { w with peers := Function.update w.peers cell ((w.peers cell).ban e.now peer) }
  | (_, .close i) => (w.conns[i]?).map (w.close i)

end Swarm

end BitRev
