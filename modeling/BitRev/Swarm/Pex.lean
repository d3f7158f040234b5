import BitRev.Pieces.Table

/-!
# Peers and peer exchange

`peer_state.rs` and `extension/ut_pex.rs`: what a torrent knows about its peers, and the `ut_pex`
extension of one connection, which tells its peer about the others. Whether a connection may use
`ut_pex` at all is decided when its extensions are bound (`Extensions.bind`) and not again.

Times are in milliseconds. Payloads are given as the message they decode to; the other extensions
of a connection are left out.
-/

namespace BitRev

structure PeerState where
  bitfield : List Bool := []
  encrypted : Bool := false
  utp : Bool := false
  outgoing : Bool := false
  /-- `writer_tx` is set: the peer is connected. -/
  live : Bool := false

/-- The `added.f` bits of a peer. -/
def PeerState.pexFlags (st : PeerState) (pieceCount : Nat) : UInt8 :=
  let seed := 0 < pieceCount && (List.range pieceCount).all fun i => st.bitfield.getD i false
  (if st.encrypted then 0x01 else 0) ||| (if seed then 0x02 else 0) |||
    (if st.utp then 0x04 else 0) ||| (if st.outgoing then 0x10 else 0)

structure PeerStates where
  states : AList fun _ : PeerAddr => PeerState := ∅
  /-- Until when a peer is banned. -/
  banned : AList fun _ : PeerAddr => Nat := ∅

namespace PeerStates

def banTtl : Nat := 60 * 60 * 1000

variable (ps : PeerStates)

def isBanned (now : Nat) (peer : PeerAddr) : Bool :=
  (ps.banned.lookup peer).any (now < ·)

def ban (now : Nat) (peer : PeerAddr) : PeerStates :=
  { ps with banned := ps.banned.insert peer (now + banTtl) }

/-- `none` if the peer is banned or known. -/
def addIfNotSeen (now : Nat) (peer : PeerAddr) : Option PeerStates :=
  if ps.isBanned now peer || peer ∈ ps.states then none
  else some { ps with states := ps.states.insert peer {} }

/-- `none` if the peer is banned or connected. -/
def insertLive (now : Nat) (peer : PeerAddr) : Option PeerStates :=
  if ps.isBanned now peer || ((ps.states.lookup peer).map (·.live)).getD false then none
  else some { ps with states := ps.states.insert peer { live := true } }

def modify (peer : PeerAddr) (f : PeerState → PeerState) : PeerStates :=
  match ps.states.lookup peer with
  | some st => { ps with states := ps.states.insert peer (f st) }
  | none => ps

def len : Nat := ps.states.entries.length

end PeerStates

def SocketAddr.isIpv6 (a : SocketAddr) : Bool :=
  match a.ip with
  | .v4 _ => false
  | .v6 _ => true

structure PexMessage where
  added : List (PeerAddr × UInt8) := []
  dropped : List PeerAddr := []
  added6 : List (PeerAddr × UInt8) := []
  dropped6 : List PeerAddr := []
  deriving DecidableEq

def PexMessage.isEmpty (m : PexMessage) : Bool :=
  m.added.isEmpty && m.dropped.isEmpty && m.added6.isEmpty && m.dropped6.isEmpty

/-- The `ut_pex` extension of a connection to `peer`. -/
structure UtPex where
  allowsPex : Bool
  peer : PeerAddr
  peerSupports : Bool := false
  sent : List PeerAddr := []
  lastSent : Option Nat := none
  lastRecv : Option Nat := none
  disconnect : Bool := false

namespace UtPex

def pexInterval : Nat := 60 * 1000
def pexMinInboundInterval : Nat := 30 * 1000
def pexMaxAdded : Nat := 50
def pexMaxDropped : Nat := 50

def sortAddrs (addrs : List PeerAddr) : List PeerAddr :=
  addrs.insertionSort fun a b => a.rank ≤ b.rank

variable (u : UtPex)

def connectedPeers (ps : PeerStates) : List PeerAddr :=
  (ps.states.entries.filter fun x => x.1 ≠ u.peer ∧ x.2.live).map (·.1)

def flagsFor (ps : PeerStates) (pieceCount : Nat) (addr : PeerAddr) : UInt8 :=
  ((ps.states.lookup addr).map (·.pexFlags pieceCount)).getD 0

/-- The peers that have come and gone since the last message. -/
def buildUpdate (ps : PeerStates) (pieceCount : Nat) : Option PexMessage :=
  let current := u.connectedPeers ps
  let added := (sortAddrs (current.filter (· ∉ u.sent))).take pexMaxAdded
  let dropped := (sortAddrs (u.sent.filter (· ∉ current))).take pexMaxDropped
  let flagged := added.map fun addr => (addr, flagsFor ps pieceCount addr)
  let msg : PexMessage :=
    { added := flagged.filter (!·.1.isIpv6), added6 := flagged.filter (·.1.isIpv6)
      dropped := dropped.filter (!·.isIpv6), dropped6 := dropped.filter (·.isIpv6) }
  if msg.isEmpty then none else some msg

def markSent (msg : PexMessage) : UtPex :=
  let added := (msg.added ++ msg.added6).map (·.1)
  let dropped := msg.dropped ++ msg.dropped6
  { u with sent := (u.sent ++ added.filter (· ∉ u.sent)).filter (· ∉ dropped) }

def onHandshake (supports : Bool) : UtPex := { u with peerSupports := supports }

/-- A message of the peer, and the addresses it gives to `add_peers`. -/
def onMessage (now : Nat) (msg : Option PexMessage) : UtPex × List PeerAddr :=
  if u.disconnect || !u.allowsPex then (u, [])
  else if u.lastRecv.any fun last => now - last < pexMinInboundInterval then
    ({ u with disconnect := true }, [])
  else
    let u := { u with lastRecv := some now }
    match msg with
    | none => (u, [])
    | some msg =>
      (u, (sortAddrs (((msg.added ++ msg.added6).map (·.1)).filter (· ≠ u.peer))).dedup)

def onTick (now : Nat) (ps : PeerStates) (pieceCount : Nat) : UtPex × Option PexMessage :=
  if u.disconnect || !u.peerSupports || !u.allowsPex then (u, none)
  else if u.lastSent.any fun last => now - last < pexInterval then (u, none)
  else
    match u.buildUpdate ps pieceCount with
    | none => (u, none)
    | some msg => ({ u.markSent msg with lastSent := some now }, some msg)

end UtPex

/-- `ExtensionSession`: the extensions of a connection. -/
structure Extensions where
  /-- `ut_pex`, if it was enabled when the extensions were bound. -/
  pex : Option UtPex
  /-- The id the peer has given to `ut_pex`. -/
  pexId : Option UInt8 := none

namespace Extensions

def bind (allowsPex : Bool) (peer : PeerAddr) : Extensions :=
  { pex := if allowsPex then some { allowsPex, peer } else none }

/-- `PeerExtensionInfo::merge`, for the entry of `ut_pex` in the handshake. -/
def mergePexId (old : Option UInt8) : Option Int → Option UInt8
  | none => old
  | some id =>
    if id = 0 then none else if 0 < id ∧ id < 256 then some (UInt8.ofNat id.toNat) else old

/-- What the extensions send on their own. -/
def collectTicks (x : Extensions) (now : Nat) (ps : PeerStates) (pieceCount : Nat) :
    Extensions × List PexMessage :=
  match x.pex with
  | none => (x, [])
  | some u =>
    let (u, msg) := u.onTick now ps pieceCount
    ({ x with pex := some u }, if x.pexId.isSome then msg.toList else [])

def onHandshake (x : Extensions) (id : Option Int) (now : Nat) (ps : PeerStates)
    (pieceCount : Nat) : Extensions × List PexMessage :=
  let pexId := mergePexId x.pexId id
  { pex := x.pex.map (·.onHandshake pexId.isSome), pexId : Extensions }.collectTicks now ps
    pieceCount

/-- A `ut_pex` message of the peer. -/
def onPex (x : Extensions) (now : Nat) (msg : Option PexMessage) : Extensions × List PeerAddr :=
  match x.pex with
  | none => (x, [])
  | some u =>
    let (u, addrs) := u.onMessage now msg
    ({ x with pex := some u }, addrs)

variable {x : Extensions} (h : x.pex = none)
include h

lemma collectTicks_silent (now : Nat) (ps : PeerStates) (pieceCount : Nat) :
    (x.collectTicks now ps pieceCount).1.pex = none ∧
      (x.collectTicks now ps pieceCount).2 = [] := by
  simp [collectTicks, h]

lemma onHandshake_silent (id : Option Int) (now : Nat) (ps : PeerStates) (pieceCount : Nat) :
    (x.onHandshake id now ps pieceCount).1.pex = none ∧
      (x.onHandshake id now ps pieceCount).2 = [] :=
  collectTicks_silent (by simp [h]) now ps pieceCount

lemma onPex_silent (now : Nat) (msg : Option PexMessage) : (x.onPex now msg).1.pex = none := by
  simp [onPex, h]

end Extensions

end BitRev
