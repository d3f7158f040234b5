import BitRev.Session.Private
import BitRev.Swarm.Inlet

/-!
# Private torrents in the swarm

Once the `info` dict of a private torrent is known, its peers are to be told of each other no more,
and no address from another source than its trackers is to be dialed. Both are decided by the
torrent slot: `add_peers` reads it each time, a connection only once, when its extensions are bound.
A magnet's slot holds a public placeholder until the promotion has set it, so connections from before
go on with `ut_pex`, and addresses that come between the arrival of the `info` dict and the
promotion are dialed.

`private_silent`: if neither happens (`Guarded`), nothing is sent and nobody is dialed.
-/

namespace BitRev

open List Option

def Session.InfoKnown (s : Session) (h : Digest) : Prop :=
  h ∈ s.torrents ∨ ∃ p ∈ s.pending.lookup h, (s.pend p).infoBytes.isSome

instance (s : Session) (h : Digest) : Decidable (s.InfoKnown h) :=
  inferInstanceAs (Decidable (h ∈ s.torrents ∨ ∃ p ∈ s.pending.lookup h, _))

/-- A magnet of this hash has its torrent in its slot. -/
def Session.Promoted (s : Session) (h : Digest) : Prop :=
  ∀ slot ∈ s.slotOf h, slot.early s = false

instance (s : Session) (h : Digest) : Decidable (s.Promoted h) :=
  inferInstanceAs (Decidable (∀ slot ∈ s.slotOf h, _ = false))

/-- A connection for a slot, silent if it was made for a private torrent. -/
structure Conn.Ok (h : Digest) (s : Session) (conn : Conn) : Prop where
  slot : conn.slot.Exists s
  infoHash : conn.slot.infoHash s = conn.infoHash
  silent : ∀ ext, conn.ext = some ext → conn.early = false → conn.infoHash = h → ext.pex = none

lemma Conn.Ok.grows {h : Digest} {s s' : Session} {conn : Conn} (hc : conn.Ok h s) (hg : Grows s s') :
    conn.Ok h s' := by
  obtain ⟨hslot, hhash, hsilent⟩ := hc
  cases hs : conn.slot with
  | magnet p =>
    rw [hs] at hslot hhash
    refine ⟨?_, ?_, hsilent⟩ <;> rw [hs]
    · exact lt_of_lt_of_le hslot hg.nextPend
    · exact (congrArg Torrent.infoHash (hg.placeholder p hslot)).trans hhash
  | torrent r =>
    rw [hs] at hslot hhash
    refine ⟨?_, ?_, hsilent⟩ <;> rw [hs]
    · exact lt_of_lt_of_le hslot hg.nextSess
    · exact (congrArg Torrent.infoHash (hg.torrent r hslot)).trans hhash

namespace Swarm

/-- Once the `info` dict is known, no connection that was made before the slot was set ticks, and
sources other than trackers deliver nothing until it is set. -/
def Guarded (h : Digest) (w : Swarm) : SwarmEnv × SwarmAct → Prop
  | (_, .tick i) | (_, .handshake i _) => w.session.InfoKnown h →
    ∀ conn ∈ w.conns[i]?, conn.infoHash = h → conn.early = false
  | (_, .deliver h' source _) => w.session.InfoKnown h → h' = h → source ≠ .tracker →
    w.session.Promoted h
  | (_, .pex i _) => w.session.InfoKnown h → ∀ conn ∈ w.conns[i]?, conn.infoHash = h →
    w.session.Promoted h
  | _ => True

def AddsPrivate (h : Digest) : SwarmEnv × SwarmAct → Prop
  | (_, .session a) => a.AddsPrivate h
  | _ => True

instance (h : Digest) (w : Swarm) : ∀ a, Decidable (Guarded h w a)
  | (_, a) => by rcases a <;> unfold Guarded <;> infer_instance

instance (h : Digest) : ∀ a, Decidable (AddsPrivate h a)
  | (_, a) => by rcases a <;> unfold AddsPrivate <;> infer_instance

/-- Only connections for `h` are started, and only addresses from `source` dialed. -/
structure Spawns (h : Digest) (source : DiscoverySource) (w w' : Swarm) : Prop where
  session : w'.session = w.session
  pexSent : w'.pexSent = w.pexSent
  conns : ∃ new, w'.conns = w.conns ++ new ∧ ∀ conn ∈ new, conn.infoHash = h ∧ conn.ext = none ∧
    conn.slot.infoHash w.session = h ∧ conn.slot.Exists w.session
  dialed : ∃ new, w'.dialed = w.dialed ++ new ∧ ∀ d ∈ new, d.1 = h ∧ d.2.1 = source

namespace Spawns

variable {h : Digest} {source : DiscoverySource} {w w₁ w' : Swarm}

lemma rfl : Spawns h source w w :=
  ⟨.refl _, .refl _, ⟨[], by simp⟩, ⟨[], by simp⟩⟩

lemma trans (h₁ : Spawns h source w w₁) (h₂ : Spawns h source w₁ w') : Spawns h source w w' :=
  ⟨h₂.session.trans h₁.session, h₂.pexSent.trans h₁.pexSent,
    Growth.append h₁.conns (h₁.session ▸ h₂.conns), Growth.append h₁.dialed h₂.dialed⟩

end Spawns

section

variable {h : Digest} {source : DiscoverySource} {w w' : Swarm} {e : SwarmEnv} {x : Ext}

lemma trySpawnPeer_spawns {conn : Conn} (hw : w.trySpawnPeer e conn = some w')
    (hh : conn.infoHash = h) (hext : conn.ext = none) (hi : conn.slot.infoHash w.session = h)
    (hs : conn.slot.Exists w.session) : Spawns h source w w' := by
  unfold trySpawnPeer at hw
  dsimp only at hw
  split_ifs at hw
  obtain ⟨ps, -, rfl⟩ := map_eq_some_iff.1 hw
  refine ⟨rfl, rfl, ⟨[conn], rfl, fun conn' hm => ?_⟩, ⟨[], by simp⟩⟩
  rw [mem_singleton] at hm
  subst hm
  exact ⟨hh, hext, hi, hs⟩

/-- A peer that connected to us counts as one from the tracker: nobody dialed it. -/
lemma trySpawnPeer_tracker {conn : Conn} (hw : w.trySpawnPeer e conn = some w')
    (hext : conn.ext = none) (hi : conn.slot.infoHash w.session = conn.infoHash)
    (hs : conn.slot.Exists w.session) : Spawns conn.infoHash .tracker w w' :=
  trySpawnPeer_spawns hw rfl hext hi hs

lemma slotOf_infoHash {s : Session} (hwf : s.Wf x) {slot : SlotRef}
    (hs : s.slotOf h = some slot) : slot.Exists s ∧ slot.infoHash s = h := by
  unfold Session.slotOf at hs
  split at hs
  · rename_i r hr
    cases hs
    exact ⟨(hwf.torrents h r hr).1, (hwf.torrents h r hr).2.1⟩
  · obtain ⟨p, hp, rfl⟩ := map_eq_some_iff.1 hs
    exact hwf.pending h p hp

lemma dial_spawns (addr : PeerAddr) :
    Spawns h source w { w with dialed := w.dialed ++ [(h, source, addr)] } :=
  ⟨rfl, rfl, ⟨[], by simp⟩, ⟨_, rfl, by simp⟩⟩

lemma setPeers_spawns (peers : Nat → PeerStates) : Spawns h source w { w with peers } :=
  ⟨rfl, rfl, ⟨[], by simp⟩, ⟨[], by simp⟩⟩

lemma connectPeer_spawns (hwf : w.session.Wf x) {addr : PeerAddr}
    (hw : w.connectPeer e h addr = some w') : Spawns h source w w' := by
  obtain ⟨slot, hs, hw⟩ := bind_eq_some_iff.1 hw
  obtain ⟨hex, hi⟩ := slotOf_infoHash hwf hs
  exact trySpawnPeer_spawns hw rfl rfl hi hex

lemma addAll_spawns {cell : Nat} (addrs : List PeerAddr) :
    ∀ {w : Swarm}, w.session.Wf x → Spawns h source w (w.addAll e h source cell addrs) := by
  induction addrs with
  | nil => exact fun _ => .rfl
  | cons addr addrs ih =>
    intro w hwf
    unfold addAll
    split
    · exact ih hwf
    split
    · exact .rfl
    split
    · exact ih hwf
    · rename_i ps _
      have h₁ : Spawns h source w { w with peers := Function.update w.peers cell ps } :=
        setPeers_spawns _
      dsimp only
      split
      · exact h₁.trans (ih hwf)
      · rename_i w₂ hw₂
        have h₂ : Spawns h source { w with peers := Function.update w.peers cell ps } w₂ :=
          connectPeer_spawns (x := x) hwf hw₂
        have hwf₂ : w₂.session.Wf x := h₂.session ▸ hwf
        exact ((h₁.trans h₂).trans (dial_spawns addr)).trans (ih hwf₂)

lemma processPeers_spawns {slot : SlotRef} (addrs : List PeerAddr) :
    ∀ {w : Swarm}, slot.Exists w.session → slot.infoHash w.session = h →
      Spawns h .tracker w (w.processPeers e h slot addrs) := by
  induction addrs with
  | nil => exact fun _ _ => .rfl
  | cons addr addrs ih =>
    intro w hex hi
    unfold processPeers
    dsimp only
    split
    · exact ih hex hi
    split
    · exact ih hex hi
    · rename_i w₁ hw₁
      have h₁ : Spawns h .tracker w w₁ := trySpawnPeer_spawns hw₁ rfl rfl hi hex
      refine (h₁.trans (dial_spawns addr)).trans (ih ?_ ?_)
      · exact h₁.session ▸ hex
      · exact h₁.session ▸ hi

lemma addPeers_spawns (hwf : w.session.Wf x) (addrs : List PeerAddr) :
    Spawns h source w (w.addPeers e h source addrs) := by
  unfold addPeers
  split
  · exact .rfl
  split
  · exact addAll_spawns (x := x) addrs hwf
  · exact .rfl

end

/-! ## What every state satisfies -/

structure Quiet (x : Ext) (h : Digest) (w : Swarm) : Prop where
  wf : w.session.Wf x
  privateAt : w.session.PrivateAt h
  conns : ∀ conn ∈ w.conns, conn.Ok h w.session

lemma Quiet.slot_private {x : Ext} {h : Digest} {w : Swarm} (hq : Quiet x h w) {slot : SlotRef}
    (hex : slot.Exists w.session) (hi : slot.infoHash w.session = h)
    (he : slot.early w.session = false) : (slot.get w.session).isPrivate := by
  cases slot with
  | torrent r => exact hq.privateAt.sess r hex hi
  | magnet p =>
    obtain ⟨r, hr⟩ := isSome_iff_exists.1 (by simpa [SlotRef.early] using he)
    obtain ⟨hlt, hhash⟩ := hq.wf.slot_infoHash hex hr
    simp only [SlotRef.get, Session.pendingTorrent, hr]
    exact hq.privateAt.sess r hlt (hhash.trans hi)

section

variable {x : Ext} {h : Digest} {w w' : Swarm} {e : SwarmEnv} {conn : Conn} {i : Nat}

section

variable (hq : Quiet x h w)
include hq

lemma Quiet.spawns {h' : Digest} {source : DiscoverySource} (hs : Spawns h' source w w') :
    Quiet x h w' := by
  obtain ⟨new, hconns, hnew⟩ := hs.conns
  refine ⟨hs.session ▸ hq.wf, hs.session ▸ hq.privateAt, ?_⟩
  rw [hs.session, hconns]
  refine forall_mem_append.2 ⟨hq.conns, fun conn hm => ?_⟩
  obtain ⟨hh, hext, hi, hex⟩ := hnew conn hm
  exact ⟨hex, hi.trans hh.symm, by simp [hext]⟩

/-- A connection is replaced. -/
lemma Quiet.set (hw : w'.session = w.session) (hset : w'.conns = w.conns.set i conn)
    (hc : conn.Ok h w.session) : Quiet x h w' := by
  refine ⟨hw ▸ hq.wf, hw ▸ hq.privateAt, fun conn' hm => ?_⟩
  rw [hw]
  rcases mem_or_eq_of_mem_set (hset ▸ hm) with hm | rfl
  · exact hq.conns conn' hm
  · exact hc

variable (hc : w.conns[i]? = some conn)
include hc

lemma Quiet.start : Quiet x h (w.start i conn) := by
  obtain ⟨hex, hi, -⟩ := hq.conns conn (mem_of_getElem? hc)
  refine hq.set rfl rfl ⟨hex, hi, ?_⟩
  intro ext hext hearly hh
  cases hext
  have hp := hq.slot_private hex (hi.trans hh) hearly
  simp [Extensions.bind, Torrent.allowsPex, Torrent.allowsSource, DiscoverySource.allowedFor, hp,
    DiscoverySource.isTracker]

lemma Quiet.talk {ext : Extensions} (hext : conn.ext = some ext)
    {out : Extensions × List PexMessage} (hout : ext.pex = none → out.1.pex = none) :
    Quiet x h (w.talk i conn out) := by
  obtain ⟨hex, hi, hsilent⟩ := hq.conns conn (mem_of_getElem? hc)
  refine hq.set rfl rfl ⟨hex, hi, ?_⟩
  intro ext' hext' hearly hh
  cases hext'
  exact hout (hsilent ext hext hearly hh)

lemma Quiet.talkPex {ext : Extensions} (hext : conn.ext = some ext) (now : Nat)
    (msg : Option PexMessage) : Quiet x h (w.talk i conn ((ext.onPex now msg).1, [])) :=
  hq.talk hc hext fun hnone => Extensions.onPex_silent hnone _ _

end

lemma running_some {y : Conn × Extensions} (hr : w.running i = some y) :
    w.conns[i]? = some y.1 ∧ y.1.ext = some y.2 := by
  obtain ⟨conn, hc, hr⟩ := bind_eq_some_iff.1 hr
  obtain ⟨ext, hext, rfl⟩ := map_eq_some_iff.1 hr
  exact ⟨hc, hext⟩

/-- Nothing is sent to the peers of `h`, and only addresses from its trackers are dialed. -/
def Silent (h : Digest) (w w' : Swarm) : Prop :=
  (∃ sent, w'.pexSent = w.pexSent ++ sent ∧ ∀ m ∈ sent, m.1 ≠ h) ∧
    ∃ dials, w'.dialed = w.dialed ++ dials ∧ ∀ d ∈ dials, d.1 = h → d.2.1 = .tracker

lemma Silent.of_eq (hp : w'.pexSent = w.pexSent) (hd : w'.dialed = w.dialed) : Silent h w w' :=
  ⟨⟨[], by simp [hp]⟩, ⟨[], by simp [hd]⟩⟩

lemma Silent.trans {w₁ : Swarm} (h₁ : Silent h w w₁) (h₂ : Silent h w₁ w') : Silent h w w' :=
  ⟨Growth.append h₁.1 h₂.1, Growth.append h₁.2 h₂.2⟩

lemma Spawns.silent {h' : Digest} {source : DiscoverySource} (hs : Spawns h' source w w')
    (hsrc : h' = h → source = .tracker) : Silent h w w' := by
  obtain ⟨dials, hd, hdials⟩ := hs.dialed
  refine ⟨⟨[], by simp [hs.pexSent]⟩, dials, hd, fun d hm hh => ?_⟩
  obtain ⟨h₁, h₂⟩ := hdials d hm
  exact h₂.trans (hsrc (h₁.symm.trans hh))

lemma Quiet.addPeers_private (hq : Quiet x h w) (hp : w.session.Promoted h)
    {source : DiscoverySource} (hsrc : source ≠ .tracker) (addrs : List PeerAddr) :
    w.addPeers e h source addrs = w := by
  unfold addPeers
  split
  · rfl
  · rename_i slot hslot
    obtain ⟨hex, hi⟩ := slotOf_infoHash hq.wf hslot
    have hpriv := hq.slot_private hex hi (hp slot hslot)
    simp [Torrent.allowsSource, DiscoverySource.allowedFor, hpriv, DiscoverySource.isTracker, hsrc]

lemma tracker_spawns (hwf : w.session.Wf x) {r : Nat} {slot : SlotRef} {addrs : List PeerAddr}
    (hs : w.step x (e, .tracker r slot addrs) = some w') :
    Spawns (w.session.sess r).torrent.infoHash .tracker w w' := by
  obtain ⟨⟨hr, -, hex, hslot⟩, hs⟩ := ite_none_right_eq_some.1 hs
  cases hs
  refine processPeers_spawns addrs hex ?_
  cases slot with
  | torrent r' => rw [← of_decide_eq_true hslot]; rfl
  | magnet p => exact (hwf.slot_infoHash hex (of_decide_eq_true hslot)).2.symm

lemma Quiet.session (hq : Quiet x h w) (hx : x.PrivateHash h) {a : Act} (ha : a.AddsPrivate h)
    {s' : Session} (hs : w.session.step x (e.session, a) = some s') :
    Quiet x h { w with session := s' } := by
  have hcase := Session.step_cases hs
  exact ⟨hq.wf.stepCase hcase, hq.privateAt.stepCase (fun _ _ _ _ bytes _ hb info => hx bytes info
    hb) ha hcase, fun conn hm => (hq.conns conn hm).grows hcase.grows⟩

lemma talk_silent {out : Extensions × List PexMessage}
    (hout : conn.infoHash = h → out.2 = []) : Silent h w (w.talk i conn out) := by
  refine ⟨⟨_, rfl, fun m hm => ?_⟩, [], by simp [talk]⟩
  obtain ⟨msg, hmsg, rfl⟩ := mem_map.1 hm
  intro hh
  rw [hout hh] at hmsg
  cases hmsg

/-- What a step keeps, and that it sends nothing where the condition holds. -/
lemma Quiet.step (hq : Quiet x h w) (hx : x.PrivateHash h) {a : SwarmAct}
    (hs : w.step x (e, a) = some w') : (AddsPrivate h (e, a) → Quiet x h w') ∧
      (Guarded h w (e, a) → w.session.InfoKnown h → Silent h w w') := by
  cases a with
  | session a =>
    obtain ⟨s', hs', rfl⟩ := map_eq_some_iff.1 hs
    exact ⟨fun ha => hq.session hx ha hs', fun _ _ => .of_eq rfl rfl⟩
  | deliver h' source addrs =>
    cases hs
    refine ⟨fun _ => hq.spawns (addPeers_spawns hq.wf addrs), fun hg hknown => ?_⟩
    by_cases hh : h' = h ∧ source ≠ .tracker
    · obtain ⟨rfl, hsrc⟩ := hh
      rw [hq.addPeers_private (hg hknown rfl hsrc) hsrc]
      exact .of_eq rfl rfl
    · exact (addPeers_spawns hq.wf addrs).silent fun heq => by
        by_contra hsrc
        exact hh ⟨heq, hsrc⟩
  | tracker r slot addrs =>
    have hsp := tracker_spawns hq.wf hs
    exact ⟨fun _ => hq.spawns hsp, fun _ _ => hsp.silent fun _ => rfl⟩
  | incoming slot peer encrypted utp =>
    obtain ⟨⟨hex, -⟩, hs⟩ := ite_none_right_eq_some.1 hs
    have hsp := trySpawnPeer_tracker hs rfl rfl hex
    exact ⟨fun _ => hq.spawns hsp, fun _ _ => hsp.silent fun _ => rfl⟩
  | start i =>
    obtain ⟨conn, hc, hs⟩ := bind_eq_some_iff.1 hs
    obtain ⟨-, hs⟩ := ite_none_right_eq_some.1 hs
    cases hs
    exact ⟨fun _ => hq.start hc, fun _ _ => .of_eq rfl rfl⟩
  | handshake i pexId =>
    obtain ⟨⟨conn, ext⟩, hr, rfl⟩ := map_eq_some_iff.1 hs
    obtain ⟨hc, hext⟩ := running_some hr
    refine ⟨fun _ => hq.talk hc hext fun hnone => (Extensions.onHandshake_silent hnone _ _ _ _).1,
      fun hg hknown => talk_silent fun hh => (Extensions.onHandshake_silent ?_ _ _ _ _).2⟩
    exact (hq.conns conn (mem_of_getElem? hc)).silent ext hext (hg hknown conn hc hh) hh
  | pex i msg =>
    obtain ⟨⟨conn, ext⟩, hr, rfl⟩ := map_eq_some_iff.1 hs
    obtain ⟨hc, hext⟩ := running_some hr
    have hq' := hq.talkPex hc hext e.now msg
    have h₁ : Silent h w (w.talk i conn ((ext.onPex e.now msg).1, [])) := talk_silent fun _ => rfl
    dsimp only
    split
    · exact ⟨fun _ => hq', fun _ _ => h₁⟩
    refine ⟨fun _ => hq'.spawns (addPeers_spawns hq'.wf _), fun hg hknown => h₁.trans ?_⟩
    by_cases hh : conn.infoHash = h
    · rw [hh, hq'.addPeers_private (hg hknown conn hc hh) (by decide)]
      exact .of_eq rfl rfl
    · exact (addPeers_spawns hq'.wf _).silent fun heq => absurd heq hh
  | tick i =>
    obtain ⟨⟨conn, ext⟩, hr, rfl⟩ := map_eq_some_iff.1 hs
    obtain ⟨hc, hext⟩ := running_some hr
    refine ⟨fun _ => hq.talk hc hext fun hnone => (Extensions.collectTicks_silent hnone _ _ _).1,
      fun hg hknown => talk_silent fun hh => (Extensions.collectTicks_silent ?_ _ _ _).2⟩
    exact (hq.conns conn (mem_of_getElem? hc)).silent ext hext (hg hknown conn hc hh) hh
  | bitfield i bits =>
    obtain ⟨conn, -, rfl⟩ := map_eq_some_iff.1 hs
    exact ⟨fun _ => { hq with }, fun _ _ => .of_eq rfl rfl⟩
  | ban cell peer =>
    cases hs
    exact ⟨fun _ => { hq with }, fun _ _ => .of_eq rfl rfl⟩
  | close i =>
    obtain ⟨conn, -, rfl⟩ := map_eq_some_iff.1 hs
    refine ⟨fun _ => ⟨hq.wf, hq.privateAt, fun conn' hm => ?_⟩, fun _ _ => .of_eq rfl rfl⟩
    exact hq.conns conn' (mem_of_mem_eraseIdx hm)

end

def new (options : SessionOptions) (categories : Categories)
    (resumeFiles : ResumeFiles) (maxPeersPerTorrent maxPeersGlobal : Nat) :
    Swarm :=
  { session := .new options categories resumeFiles, maxPeersPerTorrent, maxPeersGlobal }

/-- A decoder that knows one private `info` dict. -/
def privateExt : Ext :=
  ⟨fun _ => .ok { oneByteInfo "x" with privateFlag := some 1 }, fun _ => 1⟩

def peerA : PeerAddr := ⟨.v4 0x0a000001, 6881⟩
def peerB : PeerAddr := ⟨.v4 0x0a000002, 6881⟩

def privateRun : List (SwarmEnv × SwarmAct) :=
  [({}, .session (.addMeta 0
      (.fromValidated ⟨{ oneByteInfo "x" with privateFlag := some 1 }⟩ 1 []) {} {})),
    ({}, .session (.poll 0 {})), ({}, .session (.poll 0 {})),
    ({}, .incoming (.torrent 0) peerA false false), ({}, .start 0)]

def reached (ok : Swarm → SwarmEnv × SwarmAct → Prop) [∀ w a, Decidable (ok w a)]
    (as : List (SwarmEnv × SwarmAct))
    (h : (exec (step privateExt) ok (new {} ∅ ∅ 10 10) as).isSome) : Swarm :=
  (exec (step privateExt) ok (new {} ∅ ∅ 10 10) as).get h

end Swarm

end BitRev
