import BitRev.Framework.Assoc
import BitRev.Framework.Run
import BitRev.Metainfo.Magnet
import BitRev.Utp.Header

/-!
# The socket of the uTP connections

`utp/socket.rs`: all connections share one UDP socket, and a packet is sorted by the address it
comes from and its connection id. A connection is a `Link` here: the key it was registered under,
how far it is, and what its channel was given. The receive loop handles one packet at a time, but a
SYN takes several turns of the lock (`Accepting`), between which calls of `connect` and the ends of
other connections come.
-/

namespace BitRev.Utp

open List Option

abbrev ConnKey := SocketAddr × BitVec 16

inductive LinkPhase where
  /-- `connect` has registered it and is sending the SYN. -/
  | dialing
  /-- Sending the SYN failed; `connect` has given up, its registration stays. -/
  | failed
  /-- `accept_syn` has registered it and is sending the SYN-ACK. -/
  | offered
  /-- Sending the SYN-ACK failed. -/
  | refused
  /-- `drive_conn` runs. -/
  | driving
  /-- The loop of `drive_conn` has ended; `on_exit` is still to come. -/
  | ended
  | gone
  deriving DecidableEq

structure Link where
  key : ConnKey
  phase : LinkPhase
  /-- What the channel of the connection was given. -/
  inbox : List Packet := []

def Link.live (l : Link) : Bool :=
  match l.phase with
  | .dialing | .offered | .driving => true
  | .failed | .refused | .ended | .gone => false

/-- Where `accept_syn` is. -/
inductive Accepting where
  | idle
  /-- About to look for the derived key. -/
  | syn (addr : SocketAddr) (pkt : Packet)
  /-- The key was not there. -/
  | absent (key : ConnKey)
  /-- Registered, the SYN-ACK is being sent. -/
  | offering (c : Nat)
  /-- Driven, about to be put into the accept queue. -/
  | queueing (c : Nat)
  /-- The accept queue was full. -/
  | refusing (c : Nat)
  deriving DecidableEq

structure UtpSocket where
  conns : AList fun _ : ConnKey => Nat := ∅
  links : List Link := []
  accepting : Accepting := .idle

inductive SocketAct where
  | connect (addr : SocketAddr) (recvId : BitVec 16)
  | dialed (c : Nat) (ok : Bool)
  | packet (addr : SocketAddr) (pkt : Packet)
  | lookUp
  | register
  | synAck (ok : Bool)
  | queue (full : Bool)
  | refuse
  | driverEnds (c : Nat)
  | exit (c : Nat)

namespace UtpSocket

def resetFor (pkt : Packet) : Packet :=
  { ty := .reset, connectionId := pkt.connectionId, seqNr := pkt.ackNr, ackNr := pkt.seqNr
    timestamp := pkt.timestamp }

section

variable (s : UtpSocket)

def deliver (c : Nat) (pkt : Packet) : UtpSocket :=
  { s with links := s.links.modify c fun l => { l with inbox := l.inbox ++ [pkt] } }

def setPhase (c : Nat) (phase : LinkPhase) : UtpSocket :=
  { s with links := s.links.modify c fun l => { l with phase } }

/-- A new connection under `key`, in the place of what was registered there. -/
def insert (key : ConnKey) (phase : LinkPhase) : UtpSocket :=
  { s with conns := s.conns.insert key s.links.length, links := s.links ++ [{ key, phase }] }

/-- `remove(&key)` for the key of `c`. -/
def remove (c : Nat) : UtpSocket :=
  match s.links[c]? with
  | some l => { s with conns := s.conns.erase l.key }
  | none => s

/-- `dispatch`, with the packets it sends; a SYN of an unknown connection is left to `accept_syn`. -/
def dispatch (addr : SocketAddr) (pkt : Packet) : UtpSocket × List Packet :=
  match s.conns.lookup (addr, pkt.connectionId) with
  | some c => (s.deliver c pkt, [])
  | none =>
    if pkt.ty = .syn then ({ s with accepting := .syn addr pkt }, [])
    else (s, [resetFor pkt])

def step : SocketAct → Option UtpSocket
  | .connect addr recvId => some (s.insert (addr, recvId) .dialing)
  | .dialed c ok =>
    if (s.links[c]?).any (·.phase = .dialing) then
      some (s.setPhase c (if ok then .driving else .failed))
    else none
  | .packet addr pkt => if s.accepting = .idle then some (s.dispatch addr pkt).1 else none
  | .lookUp =>
    match s.accepting with
    | .syn addr pkt =>
      let key := (addr, pkt.connectionId + 1)
      match s.conns.lookup key with
      | some c => some { s.deliver c pkt with accepting := .idle }
      | none => some { s with accepting := .absent key }
    | _ => none
  | .register =>
    match s.accepting with
    | .absent key => some { s.insert key .offered with accepting := .offering s.links.length }
    | _ => none
  | .synAck ok =>
    match s.accepting with
    | .offering c =>
      if ok then some { s.setPhase c .driving with accepting := .queueing c }
      else some { (s.remove c).setPhase c .refused with accepting := .idle }
    | _ => none
  | .queue full =>
    match s.accepting with
    | .queueing c => some { s with accepting := if full then .refusing c else .idle }
    | _ => none
  | .refuse =>
    match s.accepting with
    | .refusing c => some { s.remove c with accepting := .idle }
    | _ => none
  | .driverEnds c =>
    if (s.links[c]?).any (·.phase = .driving) then some (s.setPhase c .ended) else none
  | .exit c =>
    if (s.links[c]?).any (·.phase = .ended) then some ((s.remove c).setPhase c .gone) else none

def FreshKeys : SocketAct → Prop
  | .connect addr recvId => (addr, recvId) ∉ s.conns
  | .register =>
    match s.accepting with
    | .absent key => key ∉ s.conns
    | _ => True
  | .queue full => full = false
  | _ => True

end

instance (s : UtpSocket) (a : SocketAct) : Decidable (s.FreshKeys a) := by
  unfold FreshKeys
  split
  · infer_instance
  · split <;> infer_instance
  · infer_instance
  · infer_instance

/-! ## Registrations -/

/-- A connection whose key nobody else may remove. -/
def holds (l : Link) : Bool :=
  match l.phase with
  | .dialing | .offered | .driving | .ended => true
  | .failed | .refused | .gone => false

lemma holds_of_live {l : Link} (h : l.live) : holds l := by
  unfold Link.live at h
  unfold holds
  split at h <;> simp_all

structure Sound (s : UtpSocket) : Prop where
  registered : ∀ c l, s.links[c]? = some l → holds l → s.conns.lookup l.key = some c
  offering : ∀ c, s.accepting = .offering c →
    ∃ l, s.links[c]? = some l ∧ l.phase = .offered
  refusing : ∀ c, s.accepting ≠ .refusing c

variable {s s' : UtpSocket}

lemma Sound.unique (h : s.Sound) {c c' : Nat} {l l' : Link} (hl : s.links[c]? = some l)
    (hl' : s.links[c']? = some l') (hh : holds l) (hh' : holds l')
    (hkey : l.key = l'.key) : c = c' := by
  have := h.registered c l hl hh
  rw [hkey, h.registered c' l' hl' hh'] at this
  exact (some.inj this).symm

lemma getElem?_modify_cases {links : List Link} {c i : Nat} {f : Link → Link} {l : Link}
    (h : (links.modify c f)[i]? = some l) :
    (i ≠ c ∧ links[i]? = some l) ∨ ∃ l₀, i = c ∧ links[i]? = some l₀ ∧ l = f l₀ := by
  rw [getElem?_modify] at h
  obtain ⟨l₀, hl₀, rfl⟩ := map_eq_some_iff.1 h
  rcases eq_or_ne c i with rfl | hne
  · exact .inr ⟨l₀, rfl, hl₀, if_pos rfl⟩
  · exact .inl ⟨hne.symm, by rw [if_neg hne]; exact hl₀⟩

lemma Sound.modify (h : s.Sound) (c : Nat) (f : Link → Link) (hkey : ∀ l, (f l).key = l.key)
    (hholds : ∀ l, s.links[c]? = some l → holds (f l) → holds l) :
    ∀ i l, (s.links.modify c f)[i]? = some l → holds l → s.conns.lookup l.key = some i := by
  intro i l hl hh
  rcases getElem?_modify_cases hl with ⟨-, hl⟩ | ⟨l₀, rfl, hl₀, rfl⟩
  · exact h.registered i l hl hh
  · rw [hkey]
    exact h.registered i l₀ hl₀ (hholds l₀ hl₀ hh)

lemma Sound.deliver (h : s.Sound) (c : Nat) (pkt : Packet) :
    ∀ i l, (s.deliver c pkt).links[i]? = some l → holds l → s.conns.lookup l.key = some i :=
  h.modify c _ (fun _ => rfl) fun _ _ hh => hh

lemma Sound.insert (h : s.Sound) {key : ConnKey} (hkey : key ∉ s.conns) (phase : LinkPhase) :
    ∀ i l, (s.insert key phase).links[i]? = some l → holds l →
      (s.insert key phase).conns.lookup l.key = some i := by
  intro i l hl hh
  unfold UtpSocket.insert at hl ⊢
  dsimp only at hl ⊢
  rcases Nat.lt_or_ge i s.links.length with hlt | hge
  · rw [getElem?_append_left hlt] at hl
    have hreg := h.registered i l hl hh
    have hne : l.key ≠ key := by
      rintro rfl
      rw [AList.lookup_eq_none.2 hkey] at hreg
      cases hreg
    rwa [AList.lookup_insert_ne hne]
  · rw [getElem?_append_right hge] at hl
    cases hd : i - s.links.length with
    | zero =>
      rw [hd] at hl
      cases hl
      rw [AList.lookup_insert, show s.links.length = i by omega]
    | succ n =>
      rw [hd] at hl
      cases hl

lemma Sound.removed (h : s.Sound) {c : Nat} {l : Link} (hl : s.links[c]? = some l)
    (hh : holds l) {phase : LinkPhase} (hphase : holds { l with phase } = false) :
    ∀ i l', ((s.remove c).setPhase c phase).links[i]? = some l' → holds l' →
      ((s.remove c).setPhase c phase).conns.lookup l'.key = some i := by
  intro i l' hl' hh'
  have hrem : s.remove c = { s with conns := s.conns.erase l.key } := by
    unfold UtpSocket.remove
    rw [hl]
  rw [hrem] at hl' ⊢
  rcases getElem?_modify_cases hl' with ⟨hne, hl'⟩ | ⟨l₀, rfl, hl₀, rfl⟩
  · have hkey : l'.key ≠ l.key := fun he => hne (h.unique hl' hl hh' hh he)
    refine (AList.lookup_erase_ne hkey).trans ?_
    exact h.registered i l' hl' hh'
  · cases hl.symm.trans hl₀
    rw [hphase] at hh'
    cases hh'

lemma any_phase {o : Option Link} {phase : LinkPhase} (h : (o.any (·.phase = phase))) :
    ∃ l, o = some l ∧ l.phase = phase := by
  obtain ⟨l, hl, hp⟩ := any_eq_true _ _ |>.mp h
  exact ⟨l, hl, of_decide_eq_true hp⟩

/-- The link that is being offered stays as it is while another one changes. -/
lemma Sound.offering_modify (h : s.Sound) {c : Nat} {l : Link} (hl : s.links[c]? = some l)
    (hp : l.phase ≠ .offered) (f : Link → Link) (c' : Nat) (hc : s.accepting = .offering c') :
    ∃ l', (s.links.modify c f)[c']? = some l' ∧ l'.phase = .offered := by
  obtain ⟨l', hl', hp'⟩ := h.offering c' hc
  have hne : c ≠ c' := by
    rintro rfl
    cases hl.symm.trans hl'
    exact hp hp'
  exact ⟨l', (getElem?_modify_ne _ _ hne).trans hl', hp'⟩

/-- A connection that holds its key goes on. -/
lemma Sound.setPhase (h : s.Sound) {c : Nat} {l : Link} (hl : s.links[c]? = some l)
    (hh : holds l) (hp : l.phase ≠ .offered) (phase : LinkPhase) :
    (s.setPhase c phase).Sound := by
  refine ⟨h.modify c _ (fun _ => rfl) fun l' hl' _ => ?_, h.offering_modify hl hp _, h.refusing⟩
  cases hl.symm.trans hl'
  exact hh

lemma remove_accepting (s : UtpSocket) (c : Nat) : (s.remove c).accepting = s.accepting := by
  unfold remove
  split <;> rfl

lemma remove_links (s : UtpSocket) (c : Nat) : (s.remove c).links = s.links := by
  unfold remove
  split <;> rfl

/-- Away from `accept_syn`, only the registrations count. -/
lemma Sound.of_registered {s : UtpSocket} (hacc : ∀ c, s.accepting ≠ .offering c)
    (href : ∀ c, s.accepting ≠ .refusing c)
    (h : ∀ c l, s.links[c]? = some l → holds l → s.conns.lookup l.key = some c) : s.Sound :=
  ⟨h, fun c hc => absurd hc (hacc c), href⟩

lemma Sound.dispatch (h : s.Sound) (hidle : s.accepting = .idle) (addr : SocketAddr) (pkt : Packet) :
    (s.dispatch addr pkt).1.Sound := by
  unfold UtpSocket.dispatch
  split
  · rename_i c hc
    refine .of_registered (fun c' hc' => ?_) (fun c' hc' => ?_) (h.deliver c pkt)
    all_goals cases hidle.symm.trans hc'
  · split
    · exact .of_registered nofun nofun h.registered
    · exact h

/-- A connection that is accepted drives; one whose answer is not sent gives up its key. -/
lemma Sound.synAck (h : s.Sound) {c : Nat} (hacc : s.accepting = .offering c) :
    Sound { s.setPhase c .driving with accepting := .queueing c } ∧
      Sound { (s.remove c).setPhase c .refused with accepting := .idle } := by
  obtain ⟨l, hl, hp⟩ := h.offering c hacc
  have hh : holds l := by rw [holds, hp]
  refine ⟨.of_registered nofun nofun (h.modify c _ (fun _ => rfl) fun l' hl' _ => ?_),
    .of_registered nofun nofun (h.removed hl hh rfl)⟩
  cases hl.symm.trans hl'
  exact hh

/-- A connection that has ended gives up its key. -/
lemma Sound.exit (h : s.Sound) {c : Nat} {l : Link} (hl : s.links[c]? = some l)
    (hp : l.phase = .ended) : ((s.remove c).setPhase c .gone).Sound := by
  have hacc := remove_accepting s c
  refine ⟨h.removed hl (by rw [holds, hp]) rfl, fun c' hc => ?_, fun c' hc => ?_⟩
  · rw [UtpSocket.setPhase, remove_links]
    exact h.offering_modify hl (by rw [hp]; decide) _ c' (hacc.symm.trans hc)
  · exact h.refusing c' (hacc.symm.trans hc)

lemma Sound.step {a : SocketAct} (h : s.Sound) (hok : s.FreshKeys a) (hs : s.step a = some s') :
    s'.Sound := by
  cases a <;> simp only [UtpSocket.step] at hs
  case connect addr recvId =>
    cases hs
    refine ⟨h.insert hok _, fun c hc => ?_, h.refusing⟩
    obtain ⟨l, hl, hp⟩ := h.offering c hc
    exact ⟨l, (getElem?_append_left (List.getElem?_eq_some_iff.1 hl).1).trans hl, hp⟩
  case packet addr pkt =>
    split_ifs at hs with hidle
    cases hs
    exact h.dispatch hidle addr pkt
  case dialed | driverEnds =>
    split at hs <;> cases hs
    rename_i hphase
    obtain ⟨l, hl, hp⟩ := any_phase hphase
    exact h.setPhase hl (by rw [holds, hp]) (by rw [hp]; decide) _
  case exit c =>
    split_ifs at hs with hend
    obtain ⟨l, hl, hp⟩ := any_phase hend
    cases hs
    exact h.exit hl hp
  case lookUp =>
    split at hs
    · split at hs <;> cases hs
      · exact .of_registered nofun nofun (h.deliver _ _)
      · exact .of_registered nofun nofun h.registered
    · cases hs
  case register =>
    split at hs <;> cases hs
    rename_i key hacc
    have hkey : key ∉ s.conns := by simpa only [FreshKeys, hacc] using hok
    refine ⟨h.insert hkey _, fun c hc => ?_, nofun⟩
    cases hc
    exact ⟨⟨key, .offered, []⟩, by simp [UtpSocket.insert], rfl⟩
  case synAck =>
    split at hs
    · rename_i c hacc
      split at hs <;> cases hs
      · exact (h.synAck hacc).1
      · exact (h.synAck hacc).2
    · cases hs
  case queue full =>
    obtain rfl : full = false := hok
    split at hs <;> cases hs
    exact .of_registered nofun nofun h.registered
  case refuse =>
    split at hs
    · rename_i c hacc
      exact absurd hacc (h.refusing c)
    · cases hs

lemma empty_sound : UtpSocket.Sound {} :=
  .of_registered nofun nofun fun c l hl => by simp at hl

/-! ## Isolation -/

structure Isolated (s : UtpSocket) : Prop where
  /-- Live connections have different keys. -/
  distinct : ∀ (c c' : Nat) (l l' : Link), s.links[c]? = some l → s.links[c']? = some l' → l.live →
    l'.live → l.key = l'.key → c = c'
  /-- A packet with the key of a live connection goes to its channel, and nothing else happens. -/
  delivered : ∀ (c : Nat) (l : Link) addr pkt, s.links[c]? = some l → l.live → pkt.ty ≠ .syn →
    l.key = (addr, pkt.connectionId) → s.dispatch addr pkt = (s.deliver c pkt, [])
  /-- A live connection is registered. -/
  registered : ∀ (c : Nat) (l : Link), s.links[c]? = some l → l.live → s.conns.lookup l.key = some c
  /-- It stays registered when another one ends. -/
  kept : ∀ (c : Nat) (l : Link) c' s', s.links[c]? = some l → l.live → c' ≠ c →
    s.step (.exit c') = some s' → s'.conns.lookup l.key = some c

lemma Sound.isolated (h : s.Sound) : s.Isolated := by
  refine ⟨fun c c' l l' hl hl' hlive hlive' hkey => ?_, fun c l addr pkt hl hlive _ hkey => ?_, fun
    c l hl hlive => h.registered c l hl (holds_of_live hlive), fun c l c' s' hl hlive hne hs => ?_⟩
  · exact h.unique hl hl' (holds_of_live hlive) (holds_of_live hlive') hkey
  · have hreg := h.registered c l hl (holds_of_live hlive)
    rw [hkey] at hreg
    rw [UtpSocket.dispatch, hreg]
  · have h' : s'.Sound := h.step (a := .exit c') trivial hs
    simp only [UtpSocket.step] at hs
    split_ifs at hs
    cases hs
    refine h'.registered c l ?_ (holds_of_live hlive)
    rw [UtpSocket.setPhase, remove_links]
    exact (getElem?_modify_ne _ _ hne).trans hl

/-- Whatever connects, arrives and ends on a socket, in whatever order, its connections are
isolated, if no key is registered that is taken and the accept queue is never full. -/
theorem connections_isolated {acts : List SocketAct} (hrun : Run step FreshKeys {} acts s) :
    s.Isolated :=
  (hrun.inv Sound.step empty_sound).isolated

def remoteAddr : SocketAddr := ⟨.v4 0x7f000001, 6881⟩

def dialAndAccept : List SocketAct :=
  [.connect remoteAddr 7, .dialed 0 true,
    .packet remoteAddr { ty := .syn, connectionId := 40, seqNr := 1, ackNr := 0 }, .lookUp,
    .register, .synAck true, .queue false,
    .packet remoteAddr { ty := .data, connectionId := 41, seqNr := 2, ackNr := 9 },
    .driverEnds 0, .exit 0]

def linkView (s : UtpSocket) : List (Bool × Nat) × List (Option Nat) :=
  (s.links.map fun l => (l.live, l.inbox.length), s.links.map fun l => s.conns.lookup l.key)

theorem connections_isolated_both : ∃ s, Run step FreshKeys {} dialAndAccept s ∧
    s.linkView = ([(false, 0), (true, 1)], [none, some 1]) ∧ s.Isolated :=
  have hrun := Run.of_isSome
  ⟨_, hrun, by decide +kernel, connections_isolated hrun⟩

/-- Two calls of `connect` to one address draw the same id. -/
def dialTwice : List SocketAct :=
  [.connect remoteAddr 7, .dialed 0 true, .connect remoteAddr 7, .dialed 1 true,
    .packet remoteAddr { ty := .data, connectionId := 7, seqNr := 1, ackNr := 0 },
    .driverEnds 0, .exit 0]

/-- Both are live under one key, the second gets the packets of the first, and the end of the first
takes the registration of the second. -/
theorem dialled_twice :
    (∃ s, Run step anyStep {} (dialTwice.take 5) s ∧
      s.linkView = ([(true, 0), (true, 1)], [some 1, some 1])) ∧
    ∃ s, Run step anyStep {} dialTwice s ∧
      s.linkView = ([(false, 0), (true, 1)], [none, none]) :=
  ⟨⟨_, .of_isSome, by decide +kernel⟩,
    _, .of_isSome, by decide +kernel⟩

end UtpSocket

end BitRev.Utp
