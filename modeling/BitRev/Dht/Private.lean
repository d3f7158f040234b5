import BitRev.Dht.Moves
import BitRev.Session.Paused
import BitRev.Session.Private

/-!
# Private torrents and the DHT

A session and its DHT actor, joined by the commands the session sends. A private torrent is never
added to the actor, but `set_active` is sent for it like for any other, and that starts a lookup.
`private_ignored`: the actor does nothing for a private torrent, as long as the torrent is in no
state from which the queue may activate it.
-/

namespace BitRev

open List Option

def Act.AddsFile (h : Digest) : Act → Prop
  | .addMeta _ m _ _ => m.infoHash = h → m.torrentFile.info.isPrivate
  | .addMagnet _ m _ => m.infoHash ≠ h
  | .addInfoHash _ h' _ _ => h' ≠ h
  | _ => True

instance (h : Digest) (a : Act) : Decidable (a.AddsFile h) := by
  rcases a <;> unfold Act.AddsFile <;> infer_instance

/-- The DHT actor is not told of this hash, or only to leave it. -/
def DhtCmd.Spares (h : Digest) : DhtCmd → Prop
  | .addTorrent id _ _ => id ≠ h
  | .setActive id active => id = h → active = false
  | _ => True

namespace Session

/-- All torrents of the private hash `h` come from metainfos and are idle, and the DHT actor is
told nothing about them. -/
structure Hidden (x : Ext) (h : Digest) (s : Session) : Prop where
  wf : s.Wf x
  privateAt : s.PrivateAt h
  pend : ∀ p < s.nextPend, (s.pend p).placeholder.infoHash ≠ h
  opening : ∀ c, .pendingOpen c ∈ s.tasks → c.infoHash ≠ h
  idle : ∀ k, s.cellOf h = some k → (s.sig.ctl k).idle
  told : ∀ cmd ∈ s.sig.dhtTx, cmd.Spares h

variable {x : Ext} {s s' : Session} {e : Env} {a : Act} {h : Digest}

lemma new_hidden (options categories resumeFiles) :
    (Session.new options categories resumeFiles).Hidden x h := by
  refine ⟨new_wf .., new_privateAt .., ?_, ?_, ?_, ?_⟩ <;> simp [Session.new, cellOf]

lemma torrentCell (hp : s.pending.lookup h = none) {k : Nat} (hk : s.cellOf h = some k) :
    ∃ r, s.torrents.lookup h = some r ∧ (s.sess r).ctl = k := by
  unfold Session.cellOf at hk
  rw [hp] at hk
  split at hk
  · rename_i r hr
    exact ⟨r, hr, some.inj hk⟩
  · cases hk

lemma Hidden.noMagnet (hh : s.Hidden x h) (ha : a.AddsFile h) (hs : StepCase x s e a s') :
    (∀ p < s'.nextPend, (s'.pend p).placeholder.infoHash ≠ h) ∧
      ∀ c, .pendingOpen c ∈ s'.tasks → c.infoHash ≠ h := by
  refine ⟨fun p hp => ?_, fun c hc => ?_⟩
  · rcases lt_or_ge p s.nextPend with hlt | hge
    · rw [hs.grows.placeholder p hlt]
      exact hh.pend p hlt
    · obtain ⟨c, ⟨n, io, rfl, ht⟩, -, -, -, hpl, -⟩ := hs.registers hge hp
      rw [hpl]
      exact hh.opening c (mem_of_getElem? ht)
  · rcases hs.task_cases hc with hc | ⟨hl, -⟩ | hst
    · exact hh.opening c hc
    · cases hl
    · cases hst with
      | begins hb =>
        cases hb with
        | addMagnet _ _ => exact ha
        | addInfoHash c _ _ hhash _ => exact hhash ▸ ha
        | poll _ hf => cases hf

lemma Hidden.asleep (hh : s.Hidden x h) (hd : a.Dormant h s) (hs : StepCase x s e a s')
    (hpend : s'.pending.lookup h = none) {k : Nat} (hk : s'.cellOf h = some k) :
    k < s.nextCtl ∧ (s.sig.ctl k).idle ∧ ¬(a.scope s).wakes k := by
  obtain ⟨r, hr, rfl⟩ := torrentCell hpend hk
  rcases hs.torrents h with heq | ⟨-, hnone⟩ | ⟨c, r', hins, hhash, hr'⟩
  · rw [heq] at hr
    obtain ⟨hlt, -⟩ := hh.wf.torrents h r hr
    have hcell := cellOf_torrent hr
    rw [hs.grows.ctl r hlt]
    exact ⟨(hh.wf.sess r hlt).1, hh.idle _ hcell, Dormant.wakes hh.wf hd hcell⟩
  · cases hnone.symm.trans hr
  · cases hr'.symm.trans hr
    obtain ⟨n, io, initial, startPaused, rfl, ht⟩ := hins
    obtain ⟨hlt, -⟩ := (hh.wf.tasks _ (mem_of_getElem? ht)).constructs r c rfl rfl
    rw [hs.grows.ctl r hlt]
    refine ⟨(hh.wf.sess r hlt).1, hd _ ht hhash, ?_⟩
    simp [Act.scope, ht, Task.scope, Task.wakes]

lemma Hidden.stepCase (hh : s.Hidden x h) (ha : a.AddsFile h) (hd : a.Dormant h s)
    (hs : StepCase x s e a s') : s'.Hidden x h := by
  have hwf := hh.wf.stepCase hs
  have hmag := hh.noMagnet ha hs
  have hpend : s'.pending.lookup h = none := by
    cases hp : s'.pending.lookup h with
    | none => rfl
    | some p =>
      obtain ⟨hlt, hhash⟩ := hwf.pending h p hp
      exact absurd hhash (hmag.1 p hlt)
  refine ⟨hwf, ?_, hmag.1, hmag.2, fun k hk => ?_, ?_⟩
  · refine hh.privateAt.stepCase (fun t ht p htp bytes hb hsha => ?_) ?_ hs
    · -- No magnet has this hash, so no `info` dict of one does.
      subst htp
      have hp := (hh.wf.tasks _ ht).owner p rfl
      exact absurd ((hh.wf.infoBytes p hp bytes hb).symm.trans hsha) (hh.pend p hp)
    · cases a <;> first | exact ha | trivial
  · obtain ⟨hlt, hidle, hw⟩ := hh.asleep hd hs hpend hk
    refine hs.idle hlt hidle hw fun c r initial _ ht hctl => ?_
    -- The session object that gets its first state is not the one of the torrent.
    obtain ⟨r', hr', hctl'⟩ := torrentCell hpend hk
    obtain ⟨hlt', -, hrun⟩ := hwf.torrents h r' hr'
    exact absurd (hctl.trans hctl'.symm) (hwf.making_ctl ht rfl rfl hlt' hrun)
  · obtain ⟨new, htx, hnew⟩ := hs.dhtTx hh.wf
    rw [htx]
    refine forall_mem_append.2 ⟨hh.told, fun cmd hcmd => ?_⟩
    have htell := hnew cmd hcmd
    cases cmd with
    | addTorrent id port active =>
      rintro rfl
      rcases htell with ⟨c, r, ⟨n, io, initial, startPaused, rfl, ht⟩, hhash, hdht⟩ |
        ⟨c, ⟨n, io, rfl, ht⟩, hhash⟩
      · have hpriv := hh.privateAt.adding _ (mem_of_getElem? ht) c rfl hhash
        simp [Torrent.allowsSource, DiscoverySource.allowedFor, DiscoverySource.isTracker, hpriv]
          at hdht
      · exact hh.opening c (mem_of_getElem? ht) hhash
    | setActive id active =>
      rintro rfl
      cases active with
      | false => rfl
      | true =>
        obtain ⟨k, hk, hwake⟩ := htell
        obtain ⟨-, hidle, hw⟩ := hh.asleep hd hs hpend hk
        exact absurd (hwake hidle) hw
    | removeTorrent | setAllActive => trivial

end Session

namespace Dht

/-- A query is not about the peers of `h`. -/
def Query.Spares (h : NodeId) (q : Query) : Prop := q.infoHash ≠ some h

def Lookup.Spares (h : NodeId) (l : Lookup) : Prop := l.kind = .getPeers → l.target ≠ h

lemma Lookup.Spares.of_eq {h : NodeId} {l l' : Lookup} (hl : l.Spares h)
    (heq : l'.target = l.target ∧ l'.kind = l.kind) : l'.Spares h := by
  intro hk
  rw [heq.1]
  exact hl (heq.2.symm.trans hk)

namespace DhtActor

structure Silent (h : NodeId) (a : DhtActor) : Prop where
  started : (LookupKind.getPeers, h) ∉ a.started
  sent : ∀ addr t q, (addr, ⟨t, .query q⟩) ∈ a.sent → q.Spares h

/-- The actor knows nothing of `h`. -/
structure Ignores (h : NodeId) (a : DhtActor) : Prop extends a.Silent h where
  torrents : a.torrents.lookup h = none
  lookups : ∀ id l, a.lookups.lookup id = some l → l.Spares h

variable {h : NodeId} {a a' : DhtActor} {now : Int}

variable (hi : Ignores h a)
include hi

/-- Moves that start no lookup for the peers of `h` leave the actor ignorant of it. -/
lemma Ignores.moves (hm : Moves True (fun kind target => kind = .getPeers → target ≠ h) a a') :
    Ignores h a' := by
  let I (c : Core) : Prop := (.getPeers, h) ∉ c.started ∧
    (∀ addr t q, (addr, ⟨t, .query q⟩) ∈ c.sent → q.Spares h) ∧
    c.torrents.lookup h = none ∧ ∀ id l, c.lookups.lookup id = some l → l.Spares h
  suffices hstep : ∀ c c', I c → Move True _ c c' → I c' by
    obtain ⟨hst, hsent, ht, hl⟩ := hm.inv hstep ⟨hi.started, hi.sent, hi.torrents, hi.lookups⟩
    exact ⟨⟨hst, hsent⟩, ht, hl⟩
  rintro c c' ⟨hst, hsent, ht, hl⟩ hm
  have hstart (target : NodeId) (kind : LookupKind) (seeds : List CompactNode)
      (hk : kind = .getPeers → target ≠ h) : I (c.start target kind seeds) := by
    refine ⟨fun hm => ?_, hsent, ht, fun id l hl' => ?_⟩
    · rcases mem_append.1 hm with hm | hm
      · exact hst hm
      · rw [mem_singleton, Prod.mk.injEq] at hm
        exact hk hm.1.symm hm.2.symm
    · rcases Assoc.lookup_insert_cases hl' with ⟨-, rfl⟩ | ⟨-, hl'⟩
      · have hnew := Lookup.new_target target kind seeds
        intro hkind
        rw [hnew.1]
        exact hk (hnew.2.symm.trans hkind)
      · exact hl id l hl'
  cases hm with
  | table => exact ⟨hst, hsent, ht, hl⟩
  | ask hl₀ heq =>
    refine ⟨hst, hsent, ht, fun id l hl' => ?_⟩
    rcases Assoc.lookup_insert_cases hl' with ⟨-, rfl⟩ | ⟨-, hl'⟩
    · exact (hl _ _ hl₀).of_eq heq
    · exact hl id l hl'
  | drop => exact ⟨hst, hsent, ht, fun id l hl' => hl id l (Assoc.lookup_erase_cases hl').2⟩
  | findSelf seeds => exact hstart c.table.id .findNode seeds nofun
  | start seeds hk => exact hstart _ _ seeds hk
  | torrent t hok =>
    refine ⟨hst, hsent, (AList.lookup_insert_ne ?_).trans ht, hl⟩
    rintro rfl
    exact hok.elim (by simp [ht]) fun hne => hne rfl rfl
  | forget h' =>
    refine ⟨hst, hsent, ?_, hl⟩
    cases hlook : (c.torrents.erase h').lookup h with
    | none => rfl
    | some t => cases ht.symm.trans (Assoc.lookup_erase_cases hlook).2
  | send addr msg hask =>
    refine ⟨hst, fun addr' t q hmem => ?_, ht, hl⟩
    rcases mem_append.1 hmem with hmem | hmem
    · exact hsent addr' t q hmem
    · rw [mem_singleton, Prod.mk.injEq] at hmem
      intro heq
      rcases hask q (hmem.2 ▸ rfl) h heq with hsome | ⟨id, l, hlook, hk, hh⟩
      · simp [ht] at hsome
      · exact hl id l hlook hk hh

lemma Ignores.keys : ∀ h' ∈ a.torrents.keys, LookupKind.getPeers = .getPeers → h' ≠ h := by
  rintro h' hm - rfl
  have := AList.lookup_isSome.2 (AList.mem_keys.2 hm)
  simp [hi.torrents] at this

/-- Commands that say nothing of `h` leave the actor ignorant of it. -/
lemma Ignores.handleCmd {cmd : DhtCmd} (hc : cmd.Spares h) : Ignores h (a.handleCmd now cmd) := by
  refine hi.moves (handleCmd_moves (fun h' hopen _ => ?_) hi.keys)
  rintro rfl
  cases cmd with
  | addTorrent => exact hc hopen
  | setActive id active =>
    cases active with
    | true => cases hc hopen
    | false => cases hopen
  | removeTorrent | setAllActive => cases hopen

lemma Ignores.tick (e : DhtEnv) : Ignores h (a.tick e) := by
  have hi₁ := hi.moves ((tickStart_moves e).trans (refreshBuckets_moves (fun _ => nofun) e))
  exact hi₁.moves ((reannounce_moves hi₁.keys).trans kickLookups_moves)

end DhtActor

/-! ## The session and the actor -/

structure Net where
  session : Session
  actor : DhtActor
  /-- How many of the session's commands the actor has taken. -/
  taken : Nat := 0

inductive NetAct where
  | session (e : Env) (a : Act)
  /-- The actor takes the next command of the session. -/
  | command
  /-- A peer has told us its DHT port. -/
  | pingNode (addr : SocketAddr)
  | packet (src : SocketAddr) (d : DhtActor.Datagram)
  | tick

namespace Net

def step (x : Ext) (w : Net) : DhtEnv × NetAct → Option Net
  | (_, .session e a) => (w.session.step x (e, a)).map fun session => { w with session }
  | (e, .command) => (w.session.sig.dhtTx[w.taken]?).map fun cmd =>
    { w with actor := w.actor.handleCmd e.now cmd, taken := w.taken + 1 }
  | (e, .pingNode addr) => some { w with actor := w.actor.sendPing e.now addr none }
  | (e, .packet src d) => (w.actor.onPacket x.sha1 e.now src d).map fun actor => { w with actor }
  | (e, .tick) => some { w with actor := w.actor.tick e }

def new (options : SessionOptions) (categories : Categories)
    (resumeFiles : ResumeFiles) (table : RoutingTable)
    (tokens : TokenSecrets) (now : Int) (nodes : List SocketAddr) : Net :=
  { session := .new options categories resumeFiles
    actor := ({ table, tokens } : DhtActor).bootstrap now nodes }

/-- Torrents with the hash `h` are added from private metainfos, and the step leaves them idle. -/
def Dormant (h : Digest) (w : Net) : DhtEnv × NetAct → Prop
  | (_, .session _ a) => a.AddsFile h ∧ a.Dormant h w.session
  | _ => True

instance (h : Digest) (w : Net) : ∀ a, Decidable (Dormant h w a)
  | (_, a) => by rcases a <;> unfold Dormant <;> infer_instance

structure Apart (x : Ext) (h : Digest) (w : Net) : Prop where
  session : w.session.Hidden x h
  actor : w.actor.Ignores h

lemma Apart.step {x : Ext} {h : Digest} {w w' : Net} {a : DhtEnv × NetAct} (hw : Apart x h w)
    (ha : Dormant h w a) (hs : w.step x a = some w') : Apart x h w' := by
  obtain ⟨e, a⟩ := a
  cases a with
  | session e' a =>
    obtain ⟨s', hs', rfl⟩ := map_eq_some_iff.1 hs
    exact ⟨hw.session.stepCase ha.1 ha.2 (Session.step_cases hs'), hw.actor⟩
  | command =>
    obtain ⟨cmd, hcmd, rfl⟩ := map_eq_some_iff.1 hs
    exact ⟨hw.session, hw.actor.handleCmd (hw.session.told cmd (mem_of_getElem? hcmd))⟩
  | pingNode addr =>
    cases hs
    exact ⟨hw.session, hw.actor.moves (DhtActor.sendPing_moves addr none)⟩
  | packet src d =>
    obtain ⟨actor, hactor, rfl⟩ := map_eq_some_iff.1 hs
    exact ⟨hw.session, hw.actor.moves (DhtActor.onPacket_moves hactor)⟩
  | tick =>
    cases hs
    exact ⟨hw.session, hw.actor.tick e⟩

/-- The actor never looks for the peers of a private torrent nor announces it, if the torrent is
added idle and no step wakes it. -/
theorem private_ignored (x : Ext) (h : Digest) (options : SessionOptions)
    (categories : Categories) (resumeFiles : ResumeFiles)
    (table : RoutingTable) (tokens : TokenSecrets) (now : Int) (nodes : List SocketAddr)
    (as : List (DhtEnv × NetAct)) (w : Net)
    (hrun : Run (step x) (Dormant h) (new options categories resumeFiles table tokens now nodes)
      as w) : w.actor.Silent h := by
  have hnew : DhtActor.Ignores h { table, tokens } := ⟨⟨by simp, by simp⟩, rfl, nofun⟩
  have hstart : Apart x h (new options categories resumeFiles table tokens now nodes) :=
    ⟨Session.new_hidden .., hnew.moves (DhtActor.bootstrap_moves nodes)⟩
  exact (hrun.inv (fun hw ha hs => hw.step ha hs) hstart).actor.toSilent

def privateFile (h : Digest) : Metainfo.TorrentMeta :=
  .fromValidated ⟨{ oneByteInfo "x" with privateFlag := some 1 }⟩ h []

/-- A node that sends us a ping, so that we know of one. -/
def nodeA : SocketAddr := ⟨.v4 0x0a000001, 6881⟩

def privateRun (paused : Bool) (rest : NetAct) : List (DhtEnv × NetAct) :=
  [({}, .packet nodeA (.message ⟨[], .query (.ping 7)⟩)),
    ({}, .session {} (.addMeta 0 (privateFile 1)
      { outputDir := some (ascii "/x"), paused := some paused } {})),
    ({}, .session {} (.poll 0 {})), ({}, .session {} (.poll 0 {})), ({}, rest)]

def reached (ok : Net → DhtEnv × NetAct → Prop) [∀ w a, Decidable (ok w a)]
    (as : List (DhtEnv × NetAct))
    (h : (exec (step Session.noExt) ok (new { dht := true } ∅ ∅ (.new 0 0) ⟨[], [], 0⟩ 0 []) as).isSome
     ) : Net :=
  (exec (step Session.noExt) ok (new { dht := true } ∅ ∅ (.new 0 0) ⟨[], [], 0⟩ 0 []) as).get h

/-- A private torrent that is added paused stays unknown to the actor, also after a tick. -/
theorem private_ignored_paused :
    let w := reached (Dormant 1) (privateRun true .tick) (by decide)
    w.session.torrents.lookup 1 = some 0 ∧ w.actor.Silent 1 :=
  ⟨by decide, private_ignored Session.noExt 1 { dht := true } ∅ ∅ (.new 0 0) ⟨[], [], 0⟩ 0 [] _ _
    (.of_isSome _)⟩

/-- A private torrent that is added is looked up at the node we know. -/
theorem private_looked_up :
    let w := reached anyStep (privateRun false .command) (by decide)
    Run (step Session.noExt) anyStep (new { dht := true } ∅ ∅ (.new 0 0) ⟨[], [], 0⟩ 0 [])
        (privateRun false .command) w ∧
      (w.session.sess 0).torrent.infoHash = 1 ∧ (w.session.sess 0).torrent.isPrivate ∧
      w.session.torrents.lookup 1 = some 0 ∧ (.getPeers, 1) ∈ w.actor.started ∧
      (nodeA, ⟨[0, 0], .query (.getPeers 0 1)⟩) ∈ w.actor.sent :=
  ⟨.of_isSome _, by decide, by decide, by decide, by decide, by decide⟩

end Net

end Dht

end BitRev
