import BitRev.Mse.Policy
import BitRev.Swarm.IpFilter
import BitRev.Swarm.Private

/-!
# Blocked hosts

The IP filter of a session (`IpFilterHandle`, `ip_filter.rs`) and every way of a connection to a
socket: the dials of an outgoing connection with their fallbacks (`outgoing_connect_and_handshake`,
`peer_connection.rs`; `MseConnector`, `RacingConnector`), and the streams that are accepted
(`accept_incoming_kind`, `accept_incoming_stream`, `session.rs`). Each of them runs as a task of
its own, between the steps of the swarm.

The filter is asked for an address as it came, so a host that is listed as an IPv4 address is not
found under its IPv4-mapped IPv6 address. `Net.listed_unreached`: no listed host is dialed or gets
past the handshake in a run into which addresses only come under the spelling that is listed
(`Net.Spelled`).
-/

namespace BitRev

open List Option

/-! ## Spellings of a host -/

namespace IpAddr

/-- The IPv4-mapped IPv6 address `::ffff:a.b.c.d`. -/
def mapped (a : BitVec 32) : BitVec 128 := (0xffff : BitVec 96) ++ a

def toIpv4Mapped (b : BitVec 128) : Option (BitVec 32) :=
  if b.extractLsb' 32 96 = 0xffff then some (b.extractLsb' 0 32) else none

/-- The host of an address: an IPv4-mapped IPv6 address is one of the IPv4 host. -/
def canonical : IpAddr → IpAddr
  | .v4 a => .v4 a
  | .v6 b =>
    match toIpv4Mapped b with
    | some a => .v4 a
    | none => .v6 b

/-- The other address of the same host. -/
def other : IpAddr → Option IpAddr
  | .v4 a => some (.v6 (mapped a))
  | .v6 b => (toIpv4Mapped b).map .v4

lemma eq_mapped {b : BitVec 128} {a : BitVec 32} (h : toIpv4Mapped b = some a) : b = mapped a := by
  obtain ⟨hhi, hlo⟩ := ite_none_right_eq_some.1 h
  cases hlo
  have hb : b = b.extractLsb' 32 96 ++ b.extractLsb' 0 32 := by
    rw [BitVec.extractLsb'_append_extractLsb'_eq_extractLsb' (by omega)]
    simp
  rw [mapped, ← hhi]
  exact hb

/-- An address of the same host is the address itself or its other spelling. -/
lemma eq_or_other {ip ip' : IpAddr} (h : ip'.canonical = ip.canonical) :
    ip' = ip ∨ ip.other = some ip' := by
  cases ip with
  | v4 a =>
    cases ip' with
    | v4 a' => exact .inl h
    | v6 b' =>
      unfold canonical at h
      cases hb : toIpv4Mapped b' with
      | none => simp [hb] at h
      | some a' =>
        obtain rfl : a' = a := by simpa [hb] using h
        exact .inr (by rw [eq_mapped hb]; rfl)
  | v6 b =>
    cases hb : toIpv4Mapped b with
    | none =>
      cases ip' with
      | v4 a' => simp [canonical, hb] at h
      | v6 b' => cases hb' : toIpv4Mapped b' <;> simp_all [canonical]
    | some a =>
      cases ip' with
      | v4 a' =>
        obtain rfl : a' = a := by simpa [canonical, hb] using h
        exact .inr (by simp [other, hb])
      | v6 b' =>
        cases hb' : toIpv4Mapped b' with
        | none => simp [canonical, hb, hb'] at h
        | some a' =>
          obtain rfl : a' = a := by simpa [canonical, hb, hb'] using h
          exact .inl (by rw [eq_mapped hb, eq_mapped hb'])

def HostListed (ranges : List ParsedRange) (ip : IpAddr) : Prop :=
  ∃ r ∈ ranges, ∃ ip' : IpAddr, ip'.canonical = ip.canonical ∧ r.Covers ip'

end IpAddr

/-! ## The filter and the connectors -/

structure IpFilterHandle where
  enabled : Bool
  filter : IpFilter

namespace IpFilterHandle

def contains (f : IpFilterHandle) (ip : IpAddr) : Bool := f.enabled && f.filter.contains ip

variable (f : IpFilterHandle)

def blocks (addr : SocketAddr) : Bool := f.contains addr.ip

/-- Only the other spelling of the address can be on the list. -/
def misses (addr : SocketAddr) : Bool := addr.ip.other.any f.contains

/-- Neither spelling of the address is on the list. -/
def Clear (addr : SocketAddr) : Prop :=
  f.blocks addr = false ∧ f.misses addr = false

lemma Clear.not_listed {readV6 : List Char → Option (BitVec 128)} {text : List Char}
    {rs : List ParsedRange} (hl : IpFilter.listed readV6 text = .ok rs) {addr : SocketAddr}
    (h : Clear ⟨true, .ofRanges rs⟩ addr) : ¬addr.ip.HostListed rs := by
  rintro ⟨r, hr, ip', hhost, hc⟩
  have hin : (IpFilter.ofRanges rs).contains ip' :=
    (IpFilter.contains_iff hl ip').2 ⟨r, hr, hc⟩
  rcases IpAddr.eq_or_other hhost with rfl | hother
  · simpa [blocks, contains, hin] using h.1
  · simpa [misses, contains, hother, hin] using h.2

end IpFilterHandle

inductive Transport where
  | tcp
  | utp
  deriving DecidableEq

inductive Connector where
  | tcp
  | utp
  | racing (first second : Connector)

namespace Connector

/-- The connections that `dial` of a connector opens. -/
def dial (addr : SocketAddr) : Connector → List (Transport × SocketAddr)
  | .tcp => [(.tcp, addr)]
  | .utp => [(.utp, addr)]
  | .racing first second => first.dial addr ++ second.dial addr

/-- `MseConnector::dial_peer`: the dials of each attempt, the next of which is made when the one
before has failed. -/
def dialPeer (c : Connector) (policy : EncryptionPolicy) (addr : SocketAddr) :
    List (List (Transport × SocketAddr)) :=
  match policy with
  | .disabled | .preferPlaintext | .requireEncrypted => [c.dial addr]
  | .preferEncrypted => [c.dial addr, c.dial addr]

lemma dial_addr {c : Connector} {addr : SocketAddr} {d : Transport × SocketAddr}
    (h : d ∈ c.dial addr) : d.2 = addr := by
  induction c with
  | tcp | utp => rw [mem_singleton.1 h]
  | racing first second ih₁ ih₂ => exact (mem_append.1 h).elim ih₁ ih₂

lemma dialPeer_addr {c : Connector} {policy : EncryptionPolicy} {addr : SocketAddr}
    {ds : List (Transport × SocketAddr)} (h : ds ∈ c.dialPeer policy addr)
    {d : Transport × SocketAddr} (hd : d ∈ ds) : d.2 = addr := by
  have hds : ds = c.dial addr := by cases policy <;> simpa [dialPeer] using h
  exact dial_addr (hds ▸ hd)

end Connector

/-! ## The tasks of connections -/

inductive NetEvent where
  | dialed (transport : Transport) (addr : SocketAddr)
  /-- The handshake of an incoming peer was read. -/
  | handshaken (addr : SocketAddr)
  deriving DecidableEq

def NetEvent.addr : NetEvent → SocketAddr
  | .dialed _ addr => addr
  | .handshaken addr => addr

/-- Where `outgoing_connect_and_handshake` waits. -/
inductive OutStage where
  /-- In `dial_peer`, with the attempts that are left. -/
  | dialing (attempts : List (List (Transport × SocketAddr)))
  /-- In `finish_outgoing`. -/
  | finishing
  /-- In the attempt with MSE after a failed plaintext handshake. -/
  | retrying

structure OutTask where
  peer : SocketAddr
  stage : OutStage

/-- Where the accepting of a stream waits. -/
inductive InStage where
  | peeking
  /-- In `mse::respond`. -/
  | responding
  | reading (encrypted : Bool)
  /-- The reply to a handshake is written. -/
  | replying (h : Digest) (slot : SlotRef) (encrypted : Bool)

structure InTask where
  addr : SocketAddr
  utp : Bool
  stage : InStage

/-- What an accepted stream brings. -/
inductive InEvent where
  | failed
  | peeked (kind : IncomingKind)
  | responded (encrypted : Bool)
  | handshake (h : Digest)
  | replied

structure Net where
  swarm : Swarm
  ipFilter : IpFilterHandle
  connector : Connector
  encryption : EncryptionPolicy
  out : List OutTask := []
  incoming : List InTask := []
  log : List NetEvent := []

inductive NetAct where
  /-- A step of the swarm, incoming connections apart. -/
  | swarm (a : SwarmAct)
  /-- `Session::connect_peer`. -/
  | connect (h : Digest) (addr : SocketAddr)
  /-- What an outgoing connection waits for succeeds or fails. -/
  | outgoing (i : Nat) (ok : Bool)
  /-- `accept_incoming`, also for uTP. -/
  | accept (addr : SocketAddr) (utp : Bool)
  /-- `Session::accept_incoming_stream`. -/
  | acceptStream (addr : SocketAddr) (kind : IncomingKind) (utp : Bool)
  | incoming (i : Nat) (ev : InEvent)

namespace Net

variable (n : Net)

/-- The environment of the swarm's steps. -/
def env (e : SwarmEnv) : SwarmEnv := { e with blocks := n.ipFilter.blocks }

def logDials (ds : List (Transport × SocketAddr)) : Net :=
  { n with log := n.log ++ ds.map fun d => .dialed d.1 d.2 }

/-- `outgoing_connect_and_handshake` of a connection that has started, up to the first dials. -/
def outgoing (peer : SocketAddr) : Net :=
  if n.ipFilter.blocks peer then n
  else
    match n.connector.dialPeer n.encryption peer with
    | [] => n
    | ds :: rest => { n with out := n.out ++ [OutTask.mk peer (.dialing rest)] }.logDials ds

/-- What an outgoing connection waits for succeeds or fails. -/
def outgoingStep (i : Nat) (ok : Bool) (t : OutTask) : Net :=
  match t.stage, ok with
  | .dialing _, true => { n with out := n.out.set i { t with stage := .finishing } }
  | .dialing [], false => { n with out := n.out.eraseIdx i }
  | .dialing (ds :: rest), false =>
    { n with out := n.out.set i { t with stage := .dialing rest } }.logDials ds
  | .finishing, false =>
    if n.encryption = .preferPlaintext ∧ n.ipFilter.blocks t.peer = false then
      { n with out := n.out.set i { t with stage := .retrying } }.logDials
        (n.connector.dial t.peer)
    else { n with out := n.out.eraseIdx i }
  | .finishing, true | .retrying, _ => { n with out := n.out.eraseIdx i }

/-- The head of `accept_incoming_stream`; `none` if the stream is refused. -/
def receive (addr : SocketAddr) (kind : IncomingKind) : Option InStage :=
  if n.ipFilter.blocks addr then none
  else
    match kind with
    | .plaintext => if n.encryption.allowsPlaintext then some (.reading false) else none
    | .maybeEncrypted => if n.encryption.allowsMse then some .responding else none

/-- The torrent that an incoming peer may have; `none` if it is refused. -/
def target (e : SwarmEnv) (addr : SocketAddr) (h : Digest) : Option SlotRef :=
  (n.swarm.session.slotOf h).bind fun slot =>
    let cell := slot.cell n.swarm.session
    if n.swarm.session.state cell = .queued || (n.swarm.peers cell).isBanned e.now addr then none
    else some slot

/-- The accepting of a stream goes on, or ends. -/
def advance (i : Nat) (t : InTask) : Option InStage → Net
  | none => { n with incoming := n.incoming.eraseIdx i }
  | some stage => { n with incoming := n.incoming.set i { t with stage } }

def spawnIncoming (e : SwarmEnv) (t : InTask) (h : Digest) (slot : SlotRef)
    (encrypted : Bool) : Net :=
  let conn : Conn :=
    { infoHash := h, slot, cell := slot.cell n.swarm.session, peer := t.addr, outgoing := false
      encrypted, utp := t.utp }
  { n with swarm := (n.swarm.trySpawnPeer (n.env e) conn).getD n.swarm }

def incomingStep (e : SwarmEnv) (i : Nat) (t : InTask) (ev : InEvent) : Option Net :=
  match t.stage, ev with
  | _, .failed => some (n.advance i t none)
  | .peeking, .peeked kind => some (n.advance i t (n.receive t.addr kind))
  | .responding, .responded encrypted => some (n.advance i t (some (.reading encrypted)))
  | .reading encrypted, .handshake h =>
    some (advance { n with log := n.log ++ [.handshaken t.addr] } i t
      ((n.target e t.addr h).map fun slot => .replying h slot encrypted))
  | .replying h slot encrypted, .replied =>
    some ((n.spawnIncoming e t h slot encrypted).advance i t none)
  | _, _ => none

def accepted (addr : SocketAddr) (utp : Bool) : Option InStage → Net
  | none => n
  | some stage => { n with incoming := n.incoming ++ [⟨addr, utp, stage⟩] }

/-- `Session::connect_peer`: as `PeerInlet::connect_peer`, unless the torrent is queued. -/
def connect (e : SwarmEnv) (h : Digest) (addr : SocketAddr) : Net :=
  let queued := (n.swarm.session.slotOf h).any fun slot =>
    n.swarm.session.state (slot.cell n.swarm.session) = .queued
  if queued then n
  else { n with swarm := (n.swarm.connectPeer (n.env e) h addr).getD n.swarm }

def step (x : Ext) (n : Net) : SwarmEnv × NetAct → Option Net
  | (_, .swarm (.incoming ..)) => none
  | (e, .swarm (.start i)) =>
    (n.swarm.step x (n.env e, .start i)).bind fun swarm =>
      (n.swarm.conns[i]?).map fun conn =>
        let n := { n with swarm }
        if conn.outgoing then n.outgoing conn.peer else n
  | (e, .swarm a) => (n.swarm.step x (n.env e, a)).map fun swarm => { n with swarm }
  | (e, .connect h addr) => some (n.connect e h addr)
  | (_, .outgoing i ok) => (n.out[i]?).map (n.outgoingStep i ok)
  | (_, .accept addr utp) =>
    some (n.accepted addr utp (if n.ipFilter.blocks addr then none else some .peeking))
  | (_, .acceptStream addr kind utp) => some (n.accepted addr utp (n.receive addr kind))
  | (e, .incoming i ev) => (n.incoming[i]?).bind fun t => n.incomingStep e i t ev

end Net

/-! ## Where the peers of a swarm come from -/

/-- The addresses that come in with a step. -/
def SwarmAct.addrs : SwarmAct → List PeerAddr
  | .deliver _ _ addrs | .tracker _ _ addrs => addrs
  | .incoming _ peer _ _ => [peer]
  | .pex _ msg => msg.toList.flatMap fun msg => (msg.added ++ msg.added6).map (·.1)
  | _ => []

lemma UtPex.onMessage_addrs {u : UtPex} {now : Nat} {msg : Option PexMessage} {addr : PeerAddr}
    (h : addr ∈ (u.onMessage now msg).2) : addr ∈ (SwarmAct.pex 0 msg).addrs := by
  unfold onMessage at h
  split at h
  · cases h
  split at h
  · cases h
  cases msg with
  | none => cases h
  | some msg =>
    have hmem := (mem_insertionSort _).1 (mem_dedup.1 h)
    simpa [SwarmAct.addrs] using mem_of_mem_filter hmem

lemma Extensions.onPex_addrs {x : Extensions} {now : Nat} {msg : Option PexMessage}
    {addr : PeerAddr} (h : addr ∈ (x.onPex now msg).2) : addr ∈ (SwarmAct.pex 0 msg).addrs := by
  unfold onPex at h
  split at h
  · cases h
  · exact UtPex.onMessage_addrs h

namespace Swarm

section

variable {P : PeerAddr → Prop} {x : Ext} {w w' : Swarm} {e : SwarmEnv} {h : Digest}

/-- Every connection is one with an address of `P`. -/
def Peers (P : PeerAddr → Prop) (w : Swarm) : Prop := ∀ conn ∈ w.conns, P conn.peer

lemma Peers.set (hw : w.Peers P) {i : Nat} {conn conn' : Conn} (hc : w.conns[i]? = some conn)
    (hset : w'.conns = w.conns.set i conn') (hp : conn'.peer = conn.peer) : w'.Peers P := by
  intro conn'' hm
  rcases mem_or_eq_of_mem_set (hset ▸ hm) with hm | rfl
  · exact hw conn'' hm
  · exact hp ▸ hw conn (mem_of_getElem? hc)

lemma Peers.trySpawnPeer (hw : w.Peers P) {conn : Conn} (hp : P conn.peer)
    (h : w.trySpawnPeer e conn = some w') : w'.Peers P := by
  unfold Swarm.trySpawnPeer at h
  obtain ⟨-, h⟩ := ite_none_left_eq_some.1 h
  obtain ⟨ps, -, rfl⟩ := map_eq_some_iff.1 h
  exact forall_mem_append.2 ⟨hw, forall_mem_singleton.2 hp⟩

lemma Peers.connectPeer (hw : w.Peers P) {addr : PeerAddr} (hp : P addr)
    (hc : w.connectPeer e h addr = some w') : w'.Peers P := by
  obtain ⟨slot, -, hc⟩ := bind_eq_some_iff.1 hc
  exact hw.trySpawnPeer hp hc

lemma Peers.addAll {source : DiscoverySource} {cell : Nat} (addrs : List PeerAddr)
    (hp : ∀ addr ∈ addrs, P addr) :
    ∀ {w : Swarm}, w.Peers P → (w.addAll e h source cell addrs).Peers P := by
  induction addrs with
  | nil => exact id
  | cons addr addrs ih =>
    intro w hw
    have ih := @ih fun a ha => hp a (mem_cons_of_mem _ ha)
    unfold Swarm.addAll
    split
    · exact ih hw
    split
    · exact hw
    split
    · exact ih hw
    · rename_i ps _
      have hw₁ : Peers P { w with peers := Function.update w.peers cell ps } := hw
      dsimp only
      split
      · exact ih hw₁
      · rename_i w₂ hw₂
        have hw' := hw₁.connectPeer (hp addr mem_cons_self) hw₂
        exact ih hw'

lemma Peers.addPeers (hw : w.Peers P) {source : DiscoverySource} {addrs : List PeerAddr}
    (hp : ∀ addr ∈ addrs, P addr) : (w.addPeers e h source addrs).Peers P := by
  unfold Swarm.addPeers
  split
  · exact hw
  split
  · exact Peers.addAll addrs hp hw
  · exact hw

lemma Peers.processPeers {slot : SlotRef} (addrs : List PeerAddr) (hp : ∀ addr ∈ addrs, P addr) :
    ∀ {w : Swarm}, w.Peers P → (w.processPeers e h slot addrs).Peers P := by
  induction addrs with
  | nil => exact id
  | cons addr addrs ih =>
    intro w hw
    have ih := @ih fun a ha => hp a (mem_cons_of_mem _ ha)
    unfold Swarm.processPeers
    dsimp only
    split
    · exact ih hw
    split
    · exact ih hw
    · rename_i w₁ hw₁
      have hw' := hw.trySpawnPeer (hp addr mem_cons_self) hw₁
      exact ih hw'

/-- A step only connects to addresses that come in with it. -/
lemma Peers.step (hw : w.Peers P) {a : SwarmAct} (hp : ∀ addr ∈ a.addrs, P addr)
    (hs : w.step x (e, a) = some w') : w'.Peers P := by
  cases a with
  | session a =>
    obtain ⟨s', -, rfl⟩ := map_eq_some_iff.1 hs
    exact hw
  | deliver h source addrs =>
    cases hs
    exact hw.addPeers hp
  | tracker r slot addrs =>
    obtain ⟨-, hs⟩ := ite_none_right_eq_some.1 hs
    cases hs
    exact Peers.processPeers addrs hp hw
  | incoming slot peer encrypted utp =>
    obtain ⟨-, hs⟩ := ite_none_right_eq_some.1 hs
    exact hw.trySpawnPeer (hp peer mem_cons_self) hs
  | start i =>
    obtain ⟨conn, hc, hs⟩ := bind_eq_some_iff.1 hs
    obtain ⟨-, hs⟩ := ite_none_right_eq_some.1 hs
    cases hs
    exact hw.set hc rfl rfl
  | handshake i pexId | tick i =>
    obtain ⟨⟨conn, ext⟩, hr, rfl⟩ := map_eq_some_iff.1 hs
    exact hw.set (running_some hr).1 rfl rfl
  | pex i msg =>
    obtain ⟨⟨conn, ext⟩, hr, rfl⟩ := map_eq_some_iff.1 hs
    have hw' : (w.talk i conn ((ext.onPex e.now msg).1, [])).Peers P :=
      hw.set (running_some hr).1 rfl rfl
    dsimp only
    split
    · exact hw'
    · exact hw'.addPeers fun addr ha => hp addr (Extensions.onPex_addrs ha)
  | bitfield i bits =>
    obtain ⟨conn, -, rfl⟩ := map_eq_some_iff.1 hs
    exact hw
  | ban cell peer =>
    cases hs
    exact hw
  | close i =>
    obtain ⟨conn, -, rfl⟩ := map_eq_some_iff.1 hs
    exact fun conn' hm => hw conn' (mem_of_mem_eraseIdx hm)

end

end Swarm

/-! ## Listed hosts -/

namespace Net

/-- The addresses that come in with a step. -/
def addrs : NetAct → List SocketAddr
  | .swarm a => a.addrs
  | .connect _ addr | .accept addr _ | .acceptStream addr _ _ => [addr]
  | _ => []

/-- No address comes in under another spelling than the one that is listed. -/
def Spelled (n : Net) (a : SwarmEnv × NetAct) : Prop :=
  ∀ addr ∈ addrs a.2, n.ipFilter.misses addr = false

instance (n : Net) (a : SwarmEnv × NetAct) : Decidable (n.Spelled a) := by
  unfold Spelled
  infer_instance

/-- Nothing that goes on or has been done is about a listed host. -/
structure AllClear (f : IpFilterHandle) (n : Net) : Prop where
  ipFilter : n.ipFilter = f
  conns : n.swarm.Peers fun peer => f.misses peer = false
  out : ∀ t ∈ n.out, f.Clear t.peer ∧
    ∀ attempts, t.stage = .dialing attempts → ∀ ds ∈ attempts, ∀ d ∈ ds, d.2 = t.peer
  incoming : ∀ t ∈ n.incoming, f.Clear t.addr
  log : ∀ ev ∈ n.log, f.Clear ev.addr

section

variable {f : IpFilterHandle} {n n' : Net} {e : SwarmEnv} {x : Ext} {t : OutTask} {i : Nat}
  {addr : SocketAddr}

section

variable (h : n.AllClear f)
include h

lemma AllClear.swarm {w : Swarm} (hw : w.Peers fun peer => f.misses peer = false) :
    AllClear f { n with swarm := w } :=
  ⟨h.ipFilter, hw, h.out, h.incoming, h.log⟩

lemma AllClear.logDials {ds : List (Transport × SocketAddr)} (hds : ∀ d ∈ ds, f.Clear d.2) :
    (n.logDials ds).AllClear f := by
  exact ⟨h.ipFilter, h.conns, h.out, h.incoming,
    forall_mem_append.2 ⟨h.log, forall_mem_map.2 hds⟩⟩

lemma AllClear.setOut {out : List OutTask} (hmem : ∀ t' ∈ out, t' ∈ n.out ∨ t' = t)
    (ht : f.Clear t.peer)
    (hds : ∀ attempts, t.stage = .dialing attempts → ∀ ds ∈ attempts, ∀ d ∈ ds, d.2 = t.peer) :
    AllClear f { n with out } := by
  refine ⟨h.ipFilter, h.conns, fun t' ht' => ?_, h.incoming, h.log⟩
  rcases hmem t' ht' with hm | rfl
  · exact h.out t' hm
  · exact ⟨ht, hds⟩

lemma AllClear.endOut (i : Nat) : AllClear f { n with out := n.out.eraseIdx i } :=
  ⟨h.ipFilter, h.conns, fun t ht => h.out t (mem_of_mem_eraseIdx ht), h.incoming, h.log⟩

lemma AllClear.outgoing {peer : SocketAddr} (hm : f.misses peer = false) :
    (n.outgoing peer).AllClear f := by
  unfold Net.outgoing
  split
  · exact h
  rename_i hb
  have hclear : f.Clear peer := ⟨by simpa [h.ipFilter] using hb, hm⟩
  have haddr : ∀ ds ∈ n.connector.dialPeer n.encryption peer, ∀ d ∈ ds, d.2 = peer :=
    fun ds hds d hd => Connector.dialPeer_addr hds hd
  split
  · exact h
  · rename_i ds rest heq
    rw [heq] at haddr
    refine AllClear.logDials (h.setOut (t := ⟨peer, .dialing rest⟩) ?_ hclear ?_) ?_
    · exact fun t ht => (mem_append.1 ht).imp_right mem_singleton.1
    · intro attempts hst ds hds
      cases hst
      exact haddr ds (mem_cons_of_mem _ hds)
    · exact fun d hd => haddr ds mem_cons_self d hd ▸ hclear

lemma AllClear.stage (ht : t ∈ n.out) (i : Nat) {stage : OutStage}
    (hds : ∀ attempts, stage = .dialing attempts → ∀ ds ∈ attempts, ∀ d ∈ ds, d.2 = t.peer) :
    AllClear f { n with out := n.out.set i { t with stage } } :=
  h.setOut (fun _ hm => mem_or_eq_of_mem_set hm) (h.out t ht).1 hds

lemma AllClear.outgoingStep (ht : t ∈ n.out) (ok : Bool) : (n.outgoingStep i ok t).AllClear f := by
  obtain ⟨hclear, haddr⟩ := h.out t ht
  unfold Net.outgoingStep
  split
  · exact h.stage ht i (by simp)
  · exact h.endOut i
  · rename_i ds rest hst
    refine (h.stage ht i ?_).logDials fun d hd => haddr _ hst ds mem_cons_self d hd ▸ hclear
    intro attempts hst' ds' hds'
    cases hst'
    exact haddr _ hst ds' (mem_cons_of_mem _ hds')
  · split
    · exact (h.stage ht i (by simp)).logDials fun d hd => Connector.dial_addr hd ▸ hclear
    · exact h.endOut i
  · exact h.endOut i
  · exact h.endOut i

lemma AllClear.setIncoming {incoming : List InTask}
    (hmem : ∀ t ∈ incoming, t ∈ n.incoming ∨ t.addr = addr) (ha : f.Clear addr) :
    AllClear f { n with incoming } := by
  refine ⟨h.ipFilter, h.conns, h.out, fun t ht => ?_, h.log⟩
  rcases hmem t ht with hm | rfl
  · exact h.incoming t hm
  · exact ha

lemma AllClear.advance {t : InTask} (ht : f.Clear t.addr) (stage : Option InStage) :
    (n.advance i t stage).AllClear f := by
  cases stage with
  | none => exact h.setIncoming (fun t' ht' => .inl (mem_of_mem_eraseIdx ht')) ht
  | some stage =>
    refine h.setIncoming (fun t' ht' => ?_) ht
    rcases mem_or_eq_of_mem_set ht' with hm | rfl
    · exact .inl hm
    · exact .inr rfl

lemma AllClear.accepted {stage : Option InStage}
    (hs : stage ≠ none → n.ipFilter.blocks addr = false) (hm : f.misses addr = false) (utp : Bool) :
    (n.accepted addr utp stage).AllClear f := by
  cases stage with
  | none => exact h
  | some stage =>
    have hclear : f.Clear addr := ⟨h.ipFilter ▸ hs (by simp), hm⟩
    exact h.setIncoming
      (forall_mem_append.2 ⟨fun _ hm => .inl hm, forall_mem_singleton.2 (.inr rfl)⟩) hclear

end

lemma receive_blocks {kind : IncomingKind}
    (h : n.receive addr kind ≠ none) : n.ipFilter.blocks addr = false := by
  by_contra hb
  exact h (by simp [receive, hb])

variable (h : n.AllClear f)
include h

lemma AllClear.incomingStep {t : InTask} (ht : t ∈ n.incoming) {ev : InEvent}
    (hs : n.incomingStep e i t ev = some n') : n'.AllClear f := by
  have hclear := h.incoming t ht
  unfold Net.incomingStep at hs
  split at hs
  · cases hs
    exact h.advance hclear _
  · cases hs
    exact h.advance hclear _
  · cases hs
    exact h.advance hclear _
  · cases hs
    have hlog : AllClear f { n with log := n.log ++ [.handshaken t.addr] } :=
      ⟨h.ipFilter, h.conns, h.out, h.incoming,
        forall_mem_append.2 ⟨h.log, forall_mem_singleton.2 hclear⟩⟩
    exact hlog.advance hclear _
  · cases hs
    refine AllClear.advance (h.swarm ?_) hclear _
    cases hw : n.swarm.trySpawnPeer (n.env e) _ with
    | none => exact h.conns
    | some w => exact h.conns.trySpawnPeer hclear.2 hw
  · cases hs

lemma AllClear.connect {hash : Digest} (hm : f.misses addr = false) :
    (n.connect e hash addr).AllClear f := by
  unfold Net.connect
  dsimp only
  split
  · exact h
  refine h.swarm ?_
  cases hw : n.swarm.connectPeer (n.env e) hash addr with
  | none => exact h.conns
  | some w => exact h.conns.connectPeer hm hw

lemma AllClear.swarmStep {a : SwarmAct} (ha : ∀ addr ∈ a.addrs, f.misses addr = false) {w : Swarm}
    (hs : n.swarm.step x (n.env e, a) = some w) : AllClear f { n with swarm := w } :=
  h.swarm (h.conns.step ha hs)

lemma AllClear.step {a : SwarmEnv × NetAct} (ha : n.Spelled a) (hs : n.step x a = some n') :
    n'.AllClear f := by
  unfold Spelled at ha
  rw [h.ipFilter] at ha
  unfold Net.step at hs
  split at hs
  · cases hs
  · obtain ⟨w, hw, hs⟩ := bind_eq_some_iff.1 hs
    obtain ⟨conn, hc, rfl⟩ := map_eq_some_iff.1 hs
    have h' := h.swarmStep (a := .start _) ha hw
    dsimp only
    split
    · exact h'.outgoing (h.conns conn (mem_of_getElem? hc))
    · exact h'
  · obtain ⟨w, hw, rfl⟩ := map_eq_some_iff.1 hs
    exact h.swarmStep ha hw
  · cases hs
    exact h.connect (ha _ mem_cons_self)
  · obtain ⟨t, ht, rfl⟩ := map_eq_some_iff.1 hs
    exact h.outgoingStep (mem_of_getElem? ht) _
  · cases hs
    refine h.accepted (fun hn => ?_) (ha _ mem_cons_self) _
    by_contra hb
    exact hn (by simp [hb])
  · cases hs
    exact h.accepted receive_blocks (ha _ mem_cons_self) _
  · obtain ⟨t, ht, hs⟩ := bind_eq_some_iff.1 hs
    exact h.incomingStep (mem_of_getElem? ht) hs

end

def new (swarm : Swarm) (ipFilter : IpFilterHandle) (connector : Connector)
    (encryption : EncryptionPolicy) : Net :=
  { swarm := { swarm with conns := [] }, ipFilter, connector, encryption }

/-- While a list is loaded and enabled, no host with an address on it is dialed, and none gets past
the handshake, in a run in which no address comes in under another spelling than the listed one. -/
theorem listed_unreached (x : Ext) (readV6 : List Char → Option (BitVec 128)) (text : List Char)
    (ranges : List ParsedRange) (hl : IpFilter.listed readV6 text = .ok ranges) (swarm : Swarm)
    (connector : Connector) (encryption : EncryptionPolicy) (as : List (SwarmEnv × NetAct))
    (n : Net)
    (hrun : Run (step x) Spelled (new swarm ⟨true, .ofRanges ranges⟩ connector encryption) as n) :
    ∀ ev ∈ n.log, ¬ev.addr.ip.HostListed ranges := by
  have hclear : n.AllClear ⟨true, .ofRanges ranges⟩ := by
    refine hrun.inv (fun hn ha hs => hn.step ha hs) ⟨rfl, ?_, ?_, ?_, ?_⟩ <;> simp [new, Swarm.Peers]
  exact fun ev hev => (hclear.log ev hev).not_listed hl

/-- `parse_compact_v6`: the peers in the `peers6` of a tracker. -/
def parseCompactV6 (buf : Bytes) : Except String (List SocketAddr) :=
  if buf.length % 18 ≠ 0 then .error "invalid compact peers6 length"
  else
    .ok ((List.range (buf.length / 18)).map fun i =>
      let chunk := (buf.drop (18 * i)).take 18
      ⟨.v6 (BitVec.ofNat 128 (beToNat (chunk.take 16))),
        UInt16.ofNat (beToNat (chunk.drop 16))⟩)

def blocklist : List Char := "1.2.3.0/24".toList

lemma listed_blocklist :
    IpFilter.listed (fun _ => none) blocklist = .ok [.v4 0x01020300 0x010203ff] := rfl

def trackerRun (addrs : List SocketAddr) : List (SwarmEnv × NetAct) :=
  [({}, .swarm (.session (.addMeta 0 (Session.oneByteFile 1) {} {}))),
    ({}, .swarm (.session (.poll 0 {}))), ({}, .swarm (.session (.poll 0 {}))),
    ({}, .swarm (.tracker 0 (.torrent 0) addrs)), ({}, .swarm (.start 0))]

/-- A session with the list. -/
def filtered : Net :=
  new (.new {} ∅ ∅ 10 10) ⟨true, .ofRanges [.v4 0x01020300 0x010203ff]⟩ (.racing .utp .tcp)
    .preferEncrypted

/-- The tracker names a listed peer and another one; then two peers connect, one of them listed. -/
def bothRun : List (SwarmEnv × NetAct) :=
  trackerRun [⟨.v4 0x01020304, 6881⟩, ⟨.v4 0x0a000001, 6881⟩] ++
    ([({}, .accept ⟨.v4 0x0a000002, 50000⟩ false), ({}, .incoming 0 (.peeked .plaintext)),
      ({}, .incoming 0 (.handshake 1)), ({}, .accept ⟨.v4 0x010203ff, 50000⟩ false)] :
      List (SwarmEnv × NetAct))

/-- Of the peers in such a run only those that are not listed are reached. -/
theorem listed_unreached_both : ∃ n, Run (step Session.noExt) Spelled filtered bothRun n ∧
      n.log = [.dialed .utp ⟨.v4 0x0a000001, 6881⟩, .dialed .tcp ⟨.v4 0x0a000001, 6881⟩,
        .handshaken ⟨.v4 0x0a000002, 50000⟩] ∧
      ∀ ev ∈ n.log, ¬ev.addr.ip.HostListed [.v4 0x01020300 0x010203ff] :=
  have hrun := Run.of_isSome
  ⟨_, hrun, by decide +kernel, listed_unreached _ _ _ _ listed_blocklist _ _ _ _ _ hrun⟩

/-- A listed host that the tracker names in `peers6` is dialed. -/
theorem mapped_dialed :
    ∃ addrs n, parseCompactV6 [0, 0, 0, 0, 0, 0, 0, 0, 0, 0, 0xff, 0xff, 1, 2, 3, 4, 0x1a, 0xe1] =
        .ok addrs ∧
      Run (step Session.noExt) anyStep filtered (trackerRun addrs) n ∧
      ∃ ev ∈ n.log, ev.addr.ip.HostListed [.v4 0x01020300 0x010203ff] :=
  have hrun := Run.of_isSome
  ⟨_, _, rfl, hrun, .dialed .utp ⟨.v6 (IpAddr.mapped 0x01020304), 6881⟩, by decide +kernel,
    _, mem_cons_self, .v4 0x01020304, by decide, by decide, by decide⟩

end Net

end BitRev
