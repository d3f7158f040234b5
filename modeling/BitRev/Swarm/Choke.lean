import BitRev.Framework.Run
import BitRev.Metainfo.Magnet

/-!
# Choke rounds

Which peers of a torrent are unchoked (`choke.rs`, `apply_choke` of `session.rs`). A round unchokes
the best three interested peers and an optimistic one, which it draws again after 30 seconds and
keeps until then. It writes `is_optimistic` only where it chokes or unchokes a peer, so an
optimistic peer that earns a regular slot keeps the mark. Times are in milliseconds.
-/

namespace BitRev.Choke

open List Option

def regularUnchokeSlots : Nat := 3
def optimisticInterval : Nat := 30000
def newPeerBiasWindow : Nat := 60000

inductive ChokeAction where
  | choke
  | unchoke

/-- What the rounds use of an entry of `PeerStates`, with `wired` for the `live` of `Swarm/Pex`. -/
structure PeerState where
  addr : SocketAddr
  connectedAt : Nat
  /-- Whether there is a `writer_tx`, that is, a connection. -/
  wired : Bool
  peerInterested : Bool := false
  amChoking : Bool := true
  bytesDownloaded : Nat := 0
  lastUnchoked : Option Nat := none
  isOptimistic : Bool := false
  /-- The messages sent through `writer_tx`, the last one first. -/
  sent : List ChokeAction := []

/-- Who was never unchoked comes before everyone else. -/
def PeerState.unchokedKey (p : PeerState) : Nat := p.lastUnchoked.elim 0 (· + 1)

/-- The order of a round: when seeding the peer that waits for longest comes first, else the peer
that has sent most. -/
def Precedes (seeding : Bool) (a b : PeerState) : Prop :=
  if seeding then a.unchokedKey < b.unchokedKey ∨
    a.unchokedKey = b.unchokedKey ∧ a.addr.rank ≤ b.addr.rank
  else b.bytesDownloaded < a.bytesDownloaded ∨
    b.bytesDownloaded = a.bytesDownloaded ∧ a.addr.rank ≤ b.addr.rank

instance (seeding : Bool) : DecidableRel (Precedes seeding) := fun _ _ => by
  unfold Precedes
  infer_instance

def interestedPeers (peers : List PeerState) (seeding : Bool) : List PeerState :=
  (peers.filter (·.peerInterested)).insertionSort (Precedes seeding)

def regularPeers (peers : List PeerState) (seeding : Bool) : List SocketAddr :=
  ((interestedPeers peers seeding).take regularUnchokeSlots).map (·.addr)

/-- `rng` is the number drawn for the ticket. -/
def pickOptimisticPeer (candidates : List PeerState) (now rng : Nat) : Option SocketAddr :=
  let tickets := candidates.flatMap fun p =>
    List.replicate (if now - p.connectedAt < newPeerBiasWindow then 3 else 1) p.addr
  tickets[rng % tickets.length]?

def selectUnchoked (peers : List PeerState) (seeding pickOptimistic : Bool) (now rng : Nat) :
    List SocketAddr :=
  let interested := interestedPeers peers seeding
  let unchoked := regularPeers peers seeding
  unchoked ++
    if pickOptimistic then
      (pickOptimisticPeer (interested.filter (·.addr ∉ unchoked)) now rng).toList
    else (interested.filter fun p => p.isOptimistic && p.addr ∉ unchoked).map (·.addr)

/-- Sets of addresses are lists without repetitions. -/
def chokeTransitions (previous next : List SocketAddr) : List (SocketAddr × ChokeAction) :=
  let chokes := (previous.filter (· ∉ next)).insertionSort (·.rank ≤ ·.rank)
  let unchokes := (next.filter (· ∉ previous)).insertionSort (·.rank ≤ ·.rank)
  chokes.map (·, .choke) ++ unchokes.map (·, .unchoke)

/-- What a transition does to the unchoked peers. -/
def applyTransition (unchoked : List SocketAddr) : SocketAddr × ChokeAction → List SocketAddr
  | (addr, .choke) => unchoked.filter (· ≠ addr)
  | (addr, .unchoke) => addr :: unchoked

def PeerState.send (p : PeerState) (action : ChokeAction) : PeerState :=
  { p with sent := if p.wired then action :: p.sent else p.sent }

/-- What `choke_transitions` leads to for one peer: whether it was unchoked is what it says itself,
and no peer has two transitions. -/
def PeerState.transition (next regular : List SocketAddr) (now : Nat) (p : PeerState) : PeerState :=
  if p.amChoking then
    if p.addr ∈ next then
      { p.send .unchoke with
        amChoking := false, lastUnchoked := some now, isOptimistic := p.addr ∉ regular }
    else p
  else if p.addr ∈ next then p
  else { p.send .choke with amChoking := true, isOptimistic := false }

/-- The entries of `PeerStates`, one for each address, and the time of the last draw. -/
structure Swarm where
  lastOptimistic : Nat
  peers : List PeerState := []
  nodup : (peers.map (·.addr)).Nodup := by simp

section

variable (s : Swarm)

def Swarm.update (f : PeerState → PeerState) (hf : ∀ p, (f p).addr = p.addr) : Swarm :=
  { s with
    peers := s.peers.map f
    nodup := by simpa only [List.map_map, Function.comp_def, hf] using s.nodup }

def Swarm.remove (addr : SocketAddr) : Swarm :=
  { s with
    peers := s.peers.filter (·.addr ≠ addr)
    nodup := s.nodup.sublist (List.filter_sublist.map _) }

/-- An entry as `PeerState::live` makes it, in place of the one there was. -/
def Swarm.insert (addr : SocketAddr) (now : Nat) (wired : Bool) : Swarm :=
  { s.remove addr with
    peers := { addr, connectedAt := now, wired } :: (s.remove addr).peers
    nodup := by
      refine List.nodup_cons.2 ⟨?_, (s.remove addr).nodup⟩
      simp [Swarm.remove] }

lemma PeerState.transition_keeps {next regular : List SocketAddr} {now : Nat} (p : PeerState) :
    (p.transition next regular now).addr = p.addr ∧
      (p.transition next regular now).peerInterested = p.peerInterested := by
  unfold transition
  split_ifs <;> exact ⟨rfl, rfl⟩

inductive Act where
  /-- `insert_live`, or `add_if_not_seen` if not `wired`. -/
  | connect (addr : SocketAddr) (now : Nat) (wired : Bool)
  /-- The connection ends (`PeerSlotGuard`). -/
  | disconnect (addr : SocketAddr)
  /-- `Interested` or `NotInterested`; `complete` is whether the torrent is. -/
  | interest (addr : SocketAddr) (interested complete : Bool)
  | deliver (addr : SocketAddr) (bytes : Nat)
  | applyChoke (seeding resetRates : Bool) (now rng : Nat)

def PeerState.onInterest (interested complete : Bool) (p : PeerState) : PeerState :=
  if interested && complete && p.amChoking then
    { p.send .unchoke with peerInterested := true, amChoking := false }
  else { p with peerInterested := interested }

def Swarm.pick (now : Nat) : Bool := optimisticInterval ≤ now - s.lastOptimistic

def Swarm.turn (seeding : Bool) (now rng : Nat) : PeerState → PeerState :=
  PeerState.transition (selectUnchoked s.peers seeding (s.pick now) now rng)
    (selectUnchoked s.peers seeding false now rng) now

/-- A step; what a peer sends comes over a connection. -/
def Swarm.step : Act → Option Swarm
  | .connect addr now wired =>
    some (if s.peers.any fun p => p.addr = addr && (p.wired || !wired) then s
      else s.insert addr now wired)
  | .disconnect addr => some (s.remove addr)
  | .interest addr interested complete =>
    some (s.update (fun p =>
      if p.addr = addr ∧ p.wired then p.onInterest interested complete else p) fun p => by unfold PeerState.onInterest; split_ifs <;> rfl)
  | .deliver addr bytes =>
    some (s.update (fun p => if p.addr = addr then
      { p with bytesDownloaded := p.bytesDownloaded + bytes } else p) fun p => by split_ifs <;> rfl)
  | .applyChoke seeding resetRates now rng =>
    let s' := s.update (fun p =>
        { s.turn seeding now rng p with
          bytesDownloaded := if resetRates then 0 else p.bytesDownloaded })
      fun p => p.transition_keeps.1
    some { s' with lastOptimistic := if s.pick now then now else s.lastOptimistic }

/-- The messages, the last one first, alternate from a first `Unchoke` and end in `amChoking`. -/
def Alternate : Bool → List ChokeAction → Prop
  | amChoking, [] => amChoking
  | amChoking, .choke :: sent => amChoking ∧ Alternate false sent
  | amChoking, .unchoke :: sent => amChoking = false ∧ Alternate true sent

/-- A round that draws somebody finds no optimistic peer among those it gives the regular slots to. -/
def Swarm.Distinct : Act → Prop
  | .applyChoke seeding _ now _ => s.pick now →
    (∃ q ∈ interestedPeers s.peers seeding, q.addr ∉ regularPeers s.peers seeding) →
    ∀ p ∈ s.peers, p.isOptimistic → p.addr ∉ regularPeers s.peers seeding
  | _ => True

end

instance (s : Swarm) : ∀ a, Decidable (s.Distinct a) := by
  intro a
  unfold Swarm.Distinct
  rcases a <;> infer_instance

structure PeerState.Ok (p : PeerState) : Prop where
  alternate : Alternate p.amChoking p.sent
  wired : p.peerInterested ∨ p.amChoking = false → p.wired
  unchoked : p.isOptimistic → p.amChoking = false

structure Swarm.Ok (s : Swarm) : Prop where
  peer : ∀ p ∈ s.peers, p.Ok
  one : s.peers.countP (·.isOptimistic) ≤ 1

/-! ## What a round selects -/

section

variable {peers : List PeerState} {seeding pick : Bool} {now rng : Nat}

instance : Std.Total (Precedes seeding) where
  total a b := by
    unfold Precedes
    split_ifs <;> omega

instance : IsTrans PeerState (Precedes seeding) where
  trans a b c := by
    unfold Precedes
    split_ifs <;> omega

/-- The interested peers in the order of the round; the first of them get the regular slots. -/
structure Ranked (peers : List PeerState) (seeding : Bool) (regular rest : List PeerState) : Prop where
  perm : (regular ++ rest).Perm (peers.filter (·.peerInterested))
  sorted : (regular ++ rest).Pairwise (Precedes seeding)
  slots : regular.length = min regularUnchokeSlots (peers.countP (·.peerInterested))

/-- Of the others one that is drawn is added, or the one that was drawn before. -/
structure Selection (peers : List PeerState) (seeding pick : Bool)
    (regular rest extra : List PeerState) : Prop extends Ranked peers seeding regular rest where
  one : extra.length ≤ 1
  among : extra.Sublist rest
  drawn : pick → extra = [] → rest = []
  kept : pick = false → extra = rest.filter (·.isOptimistic)

lemma pickOptimisticPeer_cases (candidates : List PeerState) (now rng : Nat) :
    (candidates = [] ∧ pickOptimisticPeer candidates now rng = none) ∨
      ∃ p ∈ candidates, pickOptimisticPeer candidates now rng = some p.addr := by
  unfold pickOptimisticPeer
  dsimp only
  set tickets := candidates.flatMap fun p =>
    replicate (if now - p.connectedAt < newPeerBiasWindow then 3 else 1) p.addr with ht
  rcases candidates.eq_nil_or_concat with rfl | ⟨l, p, rfl⟩
  · exact .inl ⟨rfl, rfl⟩
  · have hpos : 0 < tickets.length := by
      rw [ht, concat_eq_append, flatMap_append, length_append]
      simp only [flatMap_singleton, length_replicate]
      split_ifs <;> omega
    have hlt := Nat.mod_lt rng hpos
    obtain ⟨q, hq, h⟩ := mem_flatMap.1 (getElem_mem hlt)
    exact .inr ⟨q, hq, (getElem?_eq_getElem hlt).trans (congrArg some (eq_of_mem_replicate h))⟩

lemma filter_not_mem_take {l : List PeerState} (h : (l.map (·.addr)).Nodup) (n : Nat) :
    (l.filter fun p => p.addr ∉ (l.take n).map (·.addr)) = l.drop n := by
  rw [← take_append_drop n l, map_append] at h
  have hdisj := (nodup_append.1 h).2.2
  generalize ht : (l.take n).map (·.addr) = taken at hdisj
  rw [← take_append_drop n l, filter_append, filter_eq_nil_iff.2, filter_eq_self.2, nil_append,
    take_append_drop]
  · intro p hp
    rw [decide_eq_true_iff]
    exact fun ha => hdisj _ ha _ (mem_map_of_mem hp) rfl
  · intro p hp
    rw [decide_eq_true_iff, not_not, ← ht]
    exact mem_map_of_mem hp

lemma selectUnchoked_selection (hnodup : (peers.map (·.addr)).Nodup)
    (hone : peers.countP (·.isOptimistic) ≤ 1) (seeding pick : Bool) (now rng : Nat) :
    ∃ regular rest extra, Selection peers seeding pick regular rest extra ∧
      selectUnchoked peers seeding pick now rng = (regular ++ extra).map (·.addr) := by
  set l := interestedPeers peers seeding with hl
  have hperm : l.Perm (peers.filter (·.peerInterested)) := perm_insertionSort _ _
  have hdrop := filter_not_mem_take ((hperm.map (·.addr)).nodup_iff.2
    (hnodup.sublist (filter_sublist.map _))) regularUnchokeSlots
  have hrank : Ranked peers seeding (l.take regularUnchokeSlots) (l.drop regularUnchokeSlots) := by
    refine ⟨?_, ?_, ?_⟩
    · rwa [take_append_drop]
    · rw [take_append_drop]
      exact pairwise_insertionSort _ _
    · rw [length_take, hperm.length_eq, countP_eq_length_filter]
  unfold selectUnchoked
  simp only [regularPeers, ← hl, map_append, hdrop]
  cases pick with
  | true =>
    rcases pickOptimisticPeer_cases (l.drop regularUnchokeSlots) now rng with
      ⟨hnil, he⟩ | ⟨p, hp, he⟩
    · exact ⟨_, _, [], ⟨hrank, by simp, nil_sublist _, fun _ _ => hnil, nofun⟩, by simp [he]⟩
    · exact ⟨_, _, [p], ⟨hrank, le_rfl, singleton_sublist.2 hp, by simp, nofun⟩, by simp [he]⟩
  | false =>
    refine ⟨_, _, _, ⟨hrank, ?_, filter_sublist, nofun, fun _ => rfl⟩, ?_⟩
    · rw [← countP_eq_length_filter]
      calc _ ≤ l.countP (·.isOptimistic) := (drop_sublist _ _).countP_le
        _ = (peers.filter (·.peerInterested)).countP (·.isOptimistic) := hperm.countP_eq _
        _ ≤ 1 := (filter_sublist.countP_le).trans hone
    · rw [← hdrop, List.filter_filter]
      rfl

lemma mem_foldl_choke (l u : List SocketAddr) (a : SocketAddr) :
    a ∈ (l.map (·, .choke)).foldl applyTransition u ↔ a ∈ u ∧ a ∉ l := by
  induction l generalizing u with
  | nil => simp
  | cons b l ih => simp [ih, applyTransition, and_assoc]

lemma mem_foldl_unchoke (l u : List SocketAddr) (a : SocketAddr) :
    a ∈ (l.map (·, .unchoke)).foldl applyTransition u ↔ a ∈ u ∨ a ∈ l := by
  induction l generalizing u with
  | nil => simp
  | cons b l ih =>
    rw [map_cons, foldl_cons, ih, applyTransition, mem_cons, mem_cons]
    tauto

lemma chokeTransitions_exact {previous next : List SocketAddr} (hp : previous.Nodup)
    (hn : next.Nodup) :
    ((chokeTransitions previous next).map (·.1)).Nodup ∧
      (∀ a, a ∈ (chokeTransitions previous next).map (·.1) ↔ ¬(a ∈ previous ↔ a ∈ next)) ∧
      ∀ a, a ∈ (chokeTransitions previous next).foldl applyTransition previous ↔ a ∈ next := by
  unfold chokeTransitions
  dsimp only
  refine ⟨?_, fun a => ?_, fun a => ?_⟩
  · simp only [map_append, List.map_map, Function.comp_def, List.map_id']
    rw [nodup_append, (perm_insertionSort _ _).nodup_iff, (perm_insertionSort _ _).nodup_iff]
    refine ⟨hp.filter _, hn.filter _, fun a ha b hb heq => ?_⟩
    subst heq
    simp_all
  · simp only [map_append, List.map_map, Function.comp_def, List.map_id', mem_append,
      mem_insertionSort, mem_filter, decide_eq_true_eq]
    tauto
  · simp only [foldl_append, mem_foldl_choke, mem_foldl_unchoke, mem_insertionSort, mem_filter,
      decide_eq_true_eq]
    tauto

end

/-- A round selects the first of the interested peers in its order and at most one other, and the
transitions lead from whoever was unchoked before to these, with each change named once. -/
theorem select_exact (peers : List PeerState) (hnodup : (peers.map (·.addr)).Nodup)
    (hone : peers.countP (·.isOptimistic) ≤ 1) (seeding pick : Bool) (now rng : Nat)
    (next : List SocketAddr) (hnext : next = selectUnchoked peers seeding pick now rng) :
    (∃ regular rest extra, Selection peers seeding pick regular rest extra ∧
      next = (regular ++ extra).map (·.addr)) ∧
    ∀ previous : List SocketAddr, previous.Nodup →
      ((chokeTransitions previous next).map (·.1)).Nodup ∧
      (∀ a, a ∈ (chokeTransitions previous next).map (·.1) ↔ ¬(a ∈ previous ↔ a ∈ next)) ∧
      ∀ a, a ∈ (chokeTransitions previous next).foldl applyTransition previous ↔ a ∈ next := by
  subst hnext
  obtain ⟨regular, rest, extra, hsel, he⟩ :=
    selectUnchoked_selection hnodup hone seeding pick now rng
  refine ⟨⟨regular, rest, extra, hsel, he⟩, fun previous hp => chokeTransitions_exact hp ?_⟩
  have hall : ((regular ++ rest).map (·.addr)).Nodup :=
    (hsel.perm.map _).nodup_iff.2 (hnodup.sublist (filter_sublist.map _))
  rw [he]
  exact hall.sublist ((hsel.among.append_left regular).map _)

/-- Four of five peers are unchoked, and one that is gone is choked. -/
theorem select_exact_five : ((chokeTransitions [localPeer 9]
      (selectUnchoked ([1, 2, 3, 4, 5].map fun n =>
        { addr := localPeer n, connectedAt := 0, wired := true, peerInterested := true })
        false true 0 0)).map (·.1)).Nodup :=
  ((select_exact _ (by decide) (by decide) false true 0 0 _ rfl).2 [localPeer 9] (by decide)).1

section

variable {s s' : Swarm} {p : PeerState} {q : PeerState → Bool} {seeding pick : Bool}
  {now rng : Nat} {next regular : List SocketAddr}

lemma Swarm.countP_le (s : Swarm) (h : ∀ p ∈ s.peers, q p → p.addr ∈ next) :
    s.peers.countP q ≤ next.length := by
  rw [countP_eq_length_filter, ← length_map (·.addr)]
  refine (subperm_of_subset (s.nodup.sublist (filter_sublist.map _)) ?_).length_le
  intro a ha
  obtain ⟨p, hp, rfl⟩ := mem_map.1 ha
  exact h p (mem_filter.1 hp).1 (mem_filter.1 hp).2

lemma selectUnchoked_interested (h : s.Ok) (hp : p ∈ s.peers)
    (hn : p.addr ∈ selectUnchoked s.peers seeding pick now rng) : p.peerInterested := by
  obtain ⟨regular, rest, extra, hsel, he⟩ :=
    selectUnchoked_selection s.nodup h.one seeding pick now rng
  obtain ⟨p', hp', ha⟩ := mem_map.1 (he ▸ hn)
  have hmem := hsel.perm.subset ((hsel.among.append_left regular).subset hp')
  obtain ⟨hp', hi⟩ := mem_filter.1 hmem
  rwa [inj_on_of_nodup_map s.nodup hp hp' ha.symm]

lemma selectUnchoked_length (h : s.Ok) (seeding pick : Bool) (now rng : Nat) :
    (selectUnchoked s.peers seeding pick now rng).length ≤ regularUnchokeSlots + 1 := by
  obtain ⟨regular, rest, extra, hsel, he⟩ :=
    selectUnchoked_selection s.nodup h.one seeding pick now rng
  rw [he, length_map, length_append, hsel.slots]
  exact Nat.add_le_add (min_le_left _ _) hsel.one

lemma PeerState.Ok.transition (h : p.Ok) (hi : p.addr ∈ next → p.peerInterested) :
    (p.transition next regular now).Ok := by
  unfold PeerState.transition
  split_ifs with hc hn hn
  · have hw := h.wired (.inl (hi hn))
    refine ⟨?_, fun _ => hw, fun _ => rfl⟩
    simpa [send, hw, Alternate, hc] using h.alternate
  · exact h
  · exact h
  · have hc := Bool.eq_false_of_not_eq_true hc
    have hw := h.wired (.inr hc)
    refine ⟨?_, fun _ => hw, nofun⟩
    simpa [send, hw, Alternate, hc] using h.alternate

lemma PeerState.Ok.onInterest (h : p.Ok) (hw : p.wired) (interested complete : Bool) :
    (p.onInterest interested complete).Ok := by
  unfold PeerState.onInterest
  split_ifs with hc
  · refine ⟨?_, fun _ => hw, fun _ => rfl⟩
    simpa [send, hw, Alternate, (Bool.and_eq_true_iff.1 hc).2] using h.alternate
  · exact ⟨h.alternate, fun _ => hw, h.unchoked⟩

lemma Swarm.Ok.update (h : s.Ok) {f : PeerState → PeerState} {hf : ∀ p, (f p).addr = p.addr}
    (hok : ∀ p ∈ s.peers, (f p).Ok)
    (hone : ∀ p ∈ s.peers, (f p).isOptimistic → p.isOptimistic) :
    (s.update f hf).Ok := by
  refine ⟨?_, ?_⟩
  · intro p hp
    obtain ⟨p₀, hp₀, rfl⟩ := mem_map.1 hp
    exact hok p₀ hp₀
  · change (s.peers.map f).countP _ ≤ 1
    rw [countP_map]
    exact (countP_mono_left hone).trans h.one

lemma Swarm.Ok.remove (h : s.Ok) (addr : SocketAddr) : (s.remove addr).Ok :=
  ⟨fun p hp => h.peer p (mem_filter.1 hp).1, (filter_sublist.countP_le).trans h.one⟩

lemma Swarm.Ok.insert (h : s.Ok) (addr : SocketAddr) (wired : Bool) :
    (s.insert addr now wired).Ok := by
  exact ⟨forall_mem_cons.2 ⟨⟨rfl, nofun, nofun⟩, (h.remove addr).peer⟩,
    (countP_cons_of_neg (by simp)).trans_le (h.remove addr).one⟩

lemma PeerState.amChoking_transition :
    (p.transition next regular now).amChoking = false ↔ p.addr ∈ next := by
  unfold transition
  split_ifs with hc hn hn <;> simp_all

/-- A marked peer is among the selected, and was marked before or is not a regular one. -/
lemma PeerState.Ok.isOptimistic_transition (hok : p.Ok)
    (h : (p.transition next regular now).isOptimistic) :
    p.addr ∈ next ∧ (p.isOptimistic ∨ p.addr ∉ regular) := by
  have := hok.unchoked
  unfold PeerState.transition at h
  split_ifs at h with hc hn hn <;> simp_all

/-- After a round that meets the condition at most one peer is marked: a draw clears the mark of
every other peer, and a round without one marks nobody. -/
lemma Swarm.Ok.countP_turn {resetRates : Bool} (h : s.Ok)
    (hd : s.Distinct (.applyChoke seeding resetRates now rng)) :
    s.peers.countP (fun p => (s.turn seeding now rng p).isOptimistic) ≤ 1 := by
  unfold turn
  cases hpick : s.pick now with
  | false =>
    refine (countP_mono_left fun p hp ho => ?_).trans h.one
    obtain ⟨hn, ho | hr⟩ := (h.peer p hp).isOptimistic_transition ho
    · exact ho
    · exact absurd hn hr
  | true =>
    let candidates := (interestedPeers s.peers seeding).filter
      (·.addr ∉ regularPeers s.peers seeding)
    have hsel : selectUnchoked s.peers seeding true now rng =
      regularPeers s.peers seeding ++ (pickOptimisticPeer candidates now rng).toList := rfl
    have hmarked {p : PeerState} (ho : p.isOptimistic ∨
        p.addr ∉ selectUnchoked s.peers seeding false now rng)
        (hn : p.addr ∈ regularPeers s.peers seeding) : p.isOptimistic :=
      ho.resolve_right fun hr => hr (mem_append_left _ hn)
    rcases pickOptimisticPeer_cases candidates now rng with ⟨-, hdrawn⟩ | ⟨q, hq, hdrawn⟩ <;>
      rw [hsel, hdrawn]
    · refine (countP_mono_left fun p hp ho => ?_).trans h.one
      obtain ⟨hn, ho⟩ := (h.peer p hp).isOptimistic_transition ho
      rw [toList_none, append_nil] at hn
      exact hmarked ho hn
    · refine (s.countP_le fun p hp ho => ?_).trans (Nat.le_refl [q.addr].length)
      obtain ⟨hn, ho⟩ := (h.peer p hp).isOptimistic_transition ho
      refine (mem_append.1 hn).resolve_left fun hn => ?_
      have hleft : q.addr ∉ regularPeers s.peers seeding := of_decide_eq_true (mem_filter.1 hq).2
      exact hd hpick ⟨q, (mem_filter.1 hq).1, hleft⟩ p hp (hmarked ho hn) hn

lemma Swarm.Ok.step {a : Act} (h : s.Ok) (hd : s.Distinct a) (hs : s.step a = some s') : s'.Ok := by
  cases a <;> cases hs
  case connect =>
    split_ifs
    exacts [h, h.insert ..]
  case disconnect => exact h.remove _
  case interest =>
    refine h.update (fun p hp => ?_) fun p _ => ?_
    · split_ifs with hw
      exacts [(h.peer p hp).onInterest hw.2 .., h.peer p hp]
    · unfold PeerState.onInterest
      split_ifs <;> exact id
  case deliver =>
    refine h.update (fun p hp => ?_) fun p _ => by split_ifs <;> exact id
    have := h.peer p hp
    split_ifs
    exacts [⟨this.alternate, this.wired, this.unchoked⟩, this]
  case applyChoke seeding _ now rng =>
    refine ⟨fun p hp => ?_, ?_⟩
    · obtain ⟨p₀, hp₀, rfl⟩ := mem_map.1 hp
      have : (s.turn seeding now rng p₀).Ok :=
        (h.peer p₀ hp₀).transition (selectUnchoked_interested h hp₀)
      exact ⟨this.alternate, this.wired, this.unchoked⟩
    · exact countP_map.trans_le (h.countP_turn hd)

end

/-- Right after a round at most four peers are unchoked, all of them interested, at most one is
marked as the optimistic one, and what each peer was sent alternates and ends in `am_choking`. -/
theorem round_bounded (t₀ : Nat) (as : List Act) (s s' : Swarm)
    (hrun : Run Swarm.step Swarm.Distinct { lastOptimistic := t₀ } as s)
    (seeding resetRates : Bool) (now rng : Nat)
    (hd : s.Distinct (.applyChoke seeding resetRates now rng))
    (hs : s.step (.applyChoke seeding resetRates now rng) = some s') :
    s'.peers.countP (! ·.amChoking) ≤ regularUnchokeSlots + 1 ∧
      (∀ p ∈ s'.peers, p.amChoking = false → p.peerInterested) ∧
      s'.peers.countP (·.isOptimistic) ≤ 1 ∧ ∀ p ∈ s'.peers, Alternate p.amChoking p.sent := by
  have hok : s.Ok := hrun.inv Swarm.Ok.step ⟨nofun, Nat.zero_le _⟩
  have hok' := hok.step hd hs
  cases hs
  refine ⟨?_, fun p hp hc => ?_, hok'.one, fun p hp => (hok'.peer p hp).alternate⟩
  · have hle := selectUnchoked_length hok seeding (s.pick now) now rng
    exact countP_map.trans_le ((s.countP_le fun p _ hc =>
      PeerState.amChoking_transition.1 (by simpa [Swarm.turn] using hc)).trans hle)
  · obtain ⟨p₀, hp₀, rfl⟩ := mem_map.1 hp
    have hi := selectUnchoked_interested hok hp₀ (PeerState.amChoking_transition.1 hc)
    exact p₀.transition_keeps.2.trans hi

/-- Five peers connect and are interested. -/
def fivePeers : List Act :=
  [1, 2, 3, 4, 5].flatMap fun n => [.connect (localPeer n) 0 true, .interest (localPeer n) true false]

theorem round_bounded_five : ∃ s s', Run Swarm.step Swarm.Distinct ⟨0, [], .nil⟩ fivePeers s ∧
    s.step (.applyChoke false true 30000 0) = some s' ∧
    s'.peers.countP (! ·.amChoking) = 4 ∧ s'.peers.countP (·.isOptimistic) ≤ 1 :=
  have hrun := Run.of_isSome
  ⟨_, _, hrun, rfl, by decide +kernel,
    (round_bounded 0 fivePeers _ _ hrun false true 30000 0 (by decide +kernel) rfl).2.2.1⟩

/-- The fourth peer is drawn, earns a regular slot and keeps its mark; the fifth is drawn after it.
A round without a draw then keeps both beside the three that have sent more by now. -/
theorem two_optimistic : (exec Swarm.step anyStep ⟨0, [], .nil⟩ (fivePeers ++
      [.applyChoke false true 30000 0, .deliver (localPeer 4) 1, .applyChoke false true 60000 1,
        .deliver (localPeer 1) 1, .deliver (localPeer 2) 1, .deliver (localPeer 3) 1,
        .applyChoke false true 70000 0])).map (fun s =>
      (s.peers.countP (! ·.amChoking), s.peers.countP (·.isOptimistic))) = some (5, 2) := by
  decide +kernel

end BitRev.Choke
