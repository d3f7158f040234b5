import BitRev.Framework.Assoc
import BitRev.Framework.Run
import BitRev.Peer.Haves

/-!
# The availability counts of a torrent with its metadata

The peers of a torrent (`PeerStates`) and the counts their messages keep up to date. `heard` is
what a connected peer has sent over its connection, and `toldPieces` the pieces it has by that.

* `counts_match`: the count of a piece is the number of connected peers that have it, and the
  stored bitfield of each says what it has.
-/

namespace BitRev

open List Option AList Prod Bool Assoc

/-- The pieces the sender has after the message, from those it had before. -/
def AvailabilityMessage.update (m : AvailabilityMessage) (has : Nat → Bool) : Nat → Bool :=
  match m with
  | .havePiece index => fun i => i = index || has i
  | .bitfield bytes => (⟨bytes⟩ : Bitfield).hasPiece
  | .haveAll => fun _ => true
  | .haveNone => fun _ => false

/-- The last message that says all the sender has, and the `Have`s after it. -/
def toldPieces (ms : List AvailabilityMessage) : Nat → Bool :=
  ms.foldl (fun has m => m.update has) fun _ => false

lemma toldPieces_snoc (ms : List AvailabilityMessage) (m : AvailabilityMessage) :
    toldPieces (ms ++ [m]) = m.update (toldPieces ms) := by
  rw [toldPieces, foldl_append]
  rfl

/-- The message is not a `Have` of a piece that the stored bitfield has no byte for. -/
def PeerHave.Fits (a : Availability) (p : PeerHave) : AvailabilityMessage → Prop
  | .havePiece i => i < a.pieceCount → i / 8 < p.bitfield.bytes.length
  | .bitfield _ | .haveAll | .haveNone => True

instance (a : Availability) (p : PeerHave) : DecidablePred (p.Fits a)
  | .havePiece _ => inferInstanceAs (Decidable (_ → _))
  | .bitfield _ | .haveAll | .haveNone => isTrue trivial

/-- An entry of `PeerStates`. One that is not wired was seen and has no connection. -/
structure PeerEntry where
  wired : Bool
  known : PeerHave

/-- The peers of a torrent whose metadata is known. -/
structure PeerCounts where
  availability : Availability
  peers : AList fun _ : PeerAddr => PeerEntry

inductive PeerEvent where
  | seen (peer : PeerAddr)
  | connect (peer : PeerAddr) (fast : Bool)
  | message (peer : PeerAddr) (m : AvailabilityMessage)
  | disconnect (peer : PeerAddr)

namespace PeerCounts

def new (pieceCount : Nat) : PeerCounts := ⟨.new pieceCount, ∅⟩

variable (s : PeerCounts)

def addIfNotSeen (peer : PeerAddr) : Option PeerCounts :=
  if peer ∈ s.peers then none
  else some { s with peers := s.peers.insert peer ⟨false, { fast := false }⟩ }

/-- `insert_live`, for a peer that is not banned. -/
def insertLive (peer : PeerAddr) (fast : Bool) : Option PeerCounts :=
  if ((s.peers.lookup peer).map PeerEntry.wired).getD false then none
  else some { s with peers := s.peers.insert peer ⟨true, { fast }⟩ }

def onPeerDied (peer : PeerAddr) (e : PeerEntry) : PeerCounts :=
  { availability := s.availability.removeBitfield e.known.bitfield
    peers := s.peers.erase peer }

/-- The protocol refuses a bitfield that is longer than the pieces need. -/
def tooLarge (pieceCount : Nat) : AvailabilityMessage → Bool
  | .bitfield bytes => (pieceCount + 7) / 8 < bytes.length
  | _ => false

/-- An error of the handler or of the protocol ends the connection. -/
def onMessage (peer : PeerAddr) (m : AvailabilityMessage) (e : PeerEntry) : PeerCounts :=
  if tooLarge s.availability.pieceCount m then s.onPeerDied peer e
  else
    match e.known.receive s.availability m with
    | none => s.onPeerDied peer e
    | some (availability, known) =>
      { availability, peers := s.peers.insert peer { e with known } }

def connected (peer : PeerAddr) : Option PeerEntry :=
  (s.peers.lookup peer).filter PeerEntry.wired

def step : PeerEvent → Option PeerCounts
  | .seen peer => s.addIfNotSeen peer
  | .connect peer fast => s.insertLive peer fast
  | .message peer m => (s.connected peer).map (s.onMessage peer m)
  | .disconnect peer => (s.connected peer).map (s.onPeerDied peer)

def hear (peer : PeerAddr) (ms : List AvailabilityMessage) : PeerEvent → List AvailabilityMessage
  | .connect p _ => if p = peer then [] else ms
  | .message p m => if p = peer then ms ++ [m] else ms
  | .seen _ | .disconnect _ => ms

/-- What `peer` has sent since it last connected. -/
def heard (peer : PeerAddr) (es : List PeerEvent) : List AvailabilityMessage :=
  es.foldl (hear peer) []

/-- The number of connected peers that have piece `i`. -/
def havers (es : List PeerEvent) (i : Nat) : Nat :=
  s.peers.entries.countP fun x => x.2.wired && toldPieces (heard x.1 es) i

def connectedCount : Nat := s.peers.entries.countP (·.2.wired)

def Few : PeerEvent → Prop
  | .connect _ _ => s.connectedCount + 1 < 65535
  | .seen _ | .message _ _ | .disconnect _ => True

/-- There are fewer than 65535 peers, and a `Have` of one of the pieces comes only when the stored
bitfield of the peer has a byte for it. -/
def Stored : PeerEvent → Prop
  | .connect _ _ => s.connectedCount + 1 < 65535
  | .message peer m => ∀ e ∈ s.connected peer, e.known.Fits s.availability m
  | .seen _ | .disconnect _ => True

instance (s : PeerCounts) : DecidablePred s.Stored
  | .connect _ _ => inferInstanceAs (Decidable (_ < _))
  | .message peer m =>
    inferInstanceAs (Decidable (∀ e ∈ s.connected peer, e.known.Fits s.availability m))
  | .seen _ | .disconnect _ => isTrue trivial

end PeerCounts

/-! ## One message -/

namespace Availability

/-- The count of piece `i` is one for the peer with this bitfield, if it has the piece, and `k` for
the others, with room for one more. -/
def Counts (a : Availability) (k : Nat → Nat) (b : Bitfield) : Prop :=
  ∀ i < a.pieceCount, a.count i = k i + (b.hasPiece i).toNat ∧ k i + 1 ≤ maxCount

variable {a : Availability} {k : Nat → Nat} {b : Bitfield}

lemma Counts.removeBitfield (h : a.Counts k b) : (a.removeBitfield b).Counts k ⟨[]⟩ := by
  intro i hi
  rw [pieceCount_removeBitfield] at hi
  obtain ⟨hcount, hroom⟩ := h i hi
  refine ⟨?_, hroom⟩
  rw [count_removeBitfield a b i hi, Bitfield.hasPiece_nil, hcount]
  cases b.hasPiece i <;> simp [saturatingDec]

lemma Counts.addBitfield (h : a.Counts k ⟨[]⟩) (b : Bitfield) : (a.addBitfield b).Counts k b := by
  intro i hi
  rw [pieceCount_addBitfield] at hi
  obtain ⟨hcount, hroom⟩ := h i hi
  rw [Bitfield.hasPiece_nil] at hcount
  refine ⟨?_, hroom⟩
  rw [count_addBitfield a b i hi, hcount]
  cases b.hasPiece i
  · rfl
  · simpa [saturatingInc] using hroom

lemma Counts.applyPeerBitfield (h : a.Counts k b) (next : Bitfield) :
    (a.applyPeerBitfield b next).Counts k next :=
  h.removeBitfield.addBitfield next

lemma Counts.applyPeerHave (h : a.Counts k b) {index : Nat}
    (hbyte : index < a.pieceCount → index / 8 < b.bytes.length) :
    (a.applyPeerHave b index).1.Counts k (a.applyPeerHave b index).2 := by
  unfold Availability.applyPeerHave
  split
  · exact h
  · rename_i hnot
    intro i hi
    rw [pieceCount_addHave] at hi
    obtain ⟨hcount, hroom⟩ := h i hi
    refine ⟨?_, hroom⟩
    rw [count_addHave a index i hi, Bitfield.hasPiece_setPiece, hcount]
    by_cases hij : index = i
    · subst hij
      simp [hnot, hbyte hi, saturatingInc, hroom]
    · simp [hij]

end Availability

namespace PeerHave

variable {a a' : Availability} {p p' : PeerHave} {m : AvailabilityMessage}

/-- With the number of pieces known, a message adds one piece or replaces the stored bitfield by
what it says. -/
lemma receive_cases (hn : a.pieceCount ≠ 0) (h : p.receive a m = some (a', p')) :
    (∃ i, m = .havePiece i ∧ a' = (a.applyPeerHave p.bitfield i).1 ∧
      p'.bitfield = (a.applyPeerHave p.bitfield i).2) ∨
    (a' = a.applyPeerBitfield p.bitfield p'.bitfield ∧
      ∀ has, ∀ i < a.pieceCount, p'.bitfield.hasPiece i = m.update has i) := by
  cases m with
  | havePiece i =>
    simp only [receive, if_neg hn, some.injEq] at h
    obtain ⟨rfl, rfl⟩ := h
    exact .inl ⟨i, rfl, rfl, rfl⟩
  | bitfield bytes =>
    simp only [receive, snapshot, if_neg hn, some.injEq] at h
    obtain ⟨rfl, rfl⟩ := h
    exact .inr ⟨rfl, fun _ _ _ => rfl⟩
  | haveAll =>
    simp only [receive, snapshot, if_neg hn, ite_none_right_eq_some, some.injEq] at h
    obtain ⟨-, rfl, rfl⟩ := h
    refine .inr ⟨rfl, fun _ i hi => ?_⟩
    rw [Bitfield.hasPiece_filled]
    exact decide_eq_true hi
  | haveNone =>
    simp only [receive, snapshot, if_neg hn, ite_none_right_eq_some, some.injEq] at h
    obtain ⟨-, rfl, rfl⟩ := h
    exact .inr ⟨rfl, fun _ i _ => Bitfield.hasPiece_withPieceCount _ i⟩

/-- Without pieces a message changes neither the counts nor the bitfield. -/
lemma receive_unknown (hn : a.pieceCount = 0) (h : p.receive a m = some (a', p')) :
    a' = a ∧ p'.bitfield = p.bitfield := by
  cases m with
  | havePiece i =>
    simp only [receive, if_pos hn, some.injEq] at h
    obtain ⟨rfl, rfl⟩ := h
    exact ⟨rfl, rfl⟩
  | bitfield bytes =>
    simp only [receive, snapshot, if_pos hn, some.injEq] at h
    obtain ⟨rfl, rfl⟩ := h
    exact ⟨rfl, rfl⟩
  | haveAll | haveNone =>
    simp only [receive, snapshot, if_pos hn, ite_none_right_eq_some, some.injEq] at h
    obtain ⟨-, rfl, rfl⟩ := h
    exact ⟨rfl, rfl⟩

lemma pieceCount_receive (h : p.receive a m = some (a', p')) : a'.pieceCount = a.pieceCount := by
  by_cases hn : a.pieceCount = 0
  · rw [(receive_unknown hn h).1]
  · obtain ⟨i, -, rfl, -⟩ | ⟨rfl, -⟩ := receive_cases hn h
    · exact Availability.pieceCount_applyPeerHave ..
    · exact Availability.pieceCount_applyPeerBitfield ..

lemma receive_counts {k : Nat → Nat} (hc : a.Counts k p.bitfield) (hm : p.Fits a m)
    (h : p.receive a m = some (a', p')) : a'.Counts k p'.bitfield := by
  by_cases hn : a.pieceCount = 0
  · obtain ⟨rfl, hb⟩ := receive_unknown hn h
    exact hb ▸ hc
  · obtain ⟨i, rfl, rfl, hb⟩ | ⟨rfl, -⟩ := receive_cases hn h
    · exact hb ▸ hc.applyPeerHave hm
    · exact hc.applyPeerBitfield _

lemma receive_told {has : Nat → Bool} (hb : ∀ i < a.pieceCount, p.bitfield.hasPiece i = has i)
    (hm : p.Fits a m) (h : p.receive a m = some (a', p')) :
    ∀ i < a.pieceCount, p'.bitfield.hasPiece i = m.update has i := by
  intro i hi
  obtain ⟨j, rfl, -, hp⟩ | ⟨-, hp⟩ := receive_cases (Nat.ne_zero_of_lt hi) h
  · have hset : p'.bitfield.hasPiece i = (p.bitfield.setPiece j).hasPiece i := by
      rw [hp, (Bitfield.applyPeerHave_agree a p.bitfield j).hasPiece i (Nat.lt_succ_self i)]
    rw [hset, Bitfield.hasPiece_setPiece, hb i hi]
    by_cases hij : j = i
    · subst hij
      simp [AvailabilityMessage.update, hm hi]
    · simp [AvailabilityMessage.update, hij, Ne.symm hij]
  · exact hp has i hi

end PeerHave

/-! ## The swarm -/

namespace PeerCounts

variable {n : Nat} {es : List PeerEvent} {s s' : PeerCounts} {peer : PeerAddr} {e e' : PeerEntry}
  {ev : PeerEvent}

lemma heard_snoc (peer : PeerAddr) (es : List PeerEvent) (ev : PeerEvent) :
    heard peer (es ++ [ev]) = hear peer (heard peer es) ev := by
  rw [heard, foldl_append]
  rfl

lemma connected_eq_some (h : s.connected peer = some e) :
    s.peers.lookup peer = some e ∧ e.wired := by
  simpa [connected, filter_eq_some_iff] using h

/-- What holds after the events `es`. -/
structure Matches (n : Nat) (es : List PeerEvent) (s : PeerCounts) : Prop where
  pieceCount : s.availability.pieceCount = n
  few : s.connectedCount < 65535
  counts : ∀ i < n, s.availability.count i =
    s.peers.entries.countP fun x => x.2.known.bitfield.hasPiece i
  told : ∀ peer e, s.peers.lookup peer = some e → ∀ i < n,
    e.known.bitfield.hasPiece i = (e.wired && toldPieces (heard peer es) i)

lemma Matches.new (n : Nat) : Matches n [] (.new n) :=
  ⟨Availability.pieceCount_new n, (by decide : 0 < 65535), fun i _ => Availability.count_new n i,
    fun _ _ h => by cases h⟩

lemma Matches.counts_of (h : Matches n es s) (he : s.connected peer = some e) :
    s.availability.Counts
      (fun i => (s.peers.erase peer).entries.countP fun x => x.2.known.bitfield.hasPiece i)
      e.known.bitfield := by
  obtain ⟨hlook, hwired⟩ := connected_eq_some he
  intro i hi
  rw [h.pieceCount] at hi
  constructor
  · rw [h.counts i hi, ← countP_erase _ hlook]
    cases e.known.bitfield.hasPiece i <;> rfl
  · -- every other peer that has the piece is connected, and there are few of those
    have hle : (s.peers.erase peer).entries.countP (fun x => x.2.known.bitfield.hasPiece i) ≤
        (s.peers.erase peer).entries.countP (·.2.wired) := by
      refine countP_mono_left fun x hx hbit => ?_
      have hmem := (lookup_erase_cases (mem_lookup_iff.2 hx)).2
      rw [h.told x.1 x.2 hmem i hi, and_eq_true] at hbit
      exact hbit.1
    have hall := countP_erase (q := fun x => x.2.wired) hlook
    have hfew := h.few
    simp only [connectedCount, hwired, if_true] at hall hfew
    rw [Availability.maxCount]
    beta_reduce
    omega

lemma Matches.replace (h : Matches n es s) (he : s.connected peer = some e)
    {availability : Availability} (hwired : e'.wired) (hcount : availability.pieceCount = n)
    (hc : availability.Counts
      (fun i => (s.peers.erase peer).entries.countP fun x => x.2.known.bitfield.hasPiece i)
      e'.known.bitfield) (hother : ∀ p, p ≠ peer → heard p (es ++ [ev]) = heard p es)
    (htold : ∀ i < n, e'.known.bitfield.hasPiece i = toldPieces (heard peer (es ++ [ev])) i) :
    Matches n (es ++ [ev]) ⟨availability, s.peers.insert peer e'⟩ := by
  obtain ⟨hlook, hw⟩ := connected_eq_some he
  refine ⟨hcount, ?_, fun i hi => ?_, fun p x hx i hi => ?_⟩
  · have hall := countP_erase (q := fun x => x.2.wired) hlook
    have hfew := h.few
    simp only [connectedCount, hw, if_true] at hall hfew
    simp only [connectedCount, countP_insert, hwired, if_true]
    omega
  · rw [(hc i (hcount ▸ hi)).1, countP_insert]
    cases e'.known.bitfield.hasPiece i <;> rfl
  · obtain ⟨rfl, rfl⟩ | ⟨hne, hx⟩ := lookup_insert_cases hx
    · rw [hwired, Bool.true_and, htold i hi]
    · rw [hother p hne, h.told p x hx i hi]

lemma Matches.onPeerDied (h : Matches n es s) (he : s.connected peer = some e)
    (hother : ∀ p, p ≠ peer → heard p (es ++ [ev]) = heard p es) :
    Matches n (es ++ [ev]) (s.onPeerDied peer e) := by
  obtain ⟨hlook, hw⟩ := connected_eq_some he
  have hc := (h.counts_of he).removeBitfield
  refine ⟨(Availability.pieceCount_removeBitfield ..).trans h.pieceCount, ?_, fun i hi => ?_,
    fun p x hx i hi => ?_⟩
  · have hall := countP_erase (q := fun x => x.2.wired) hlook
    have hfew := h.few
    simp only [connectedCount, hw, if_true] at hall hfew
    simp only [connectedCount, PeerCounts.onPeerDied]
    omega
  · have hi' := hc i (by simpa [h.pieceCount] using hi)
    rw [Bitfield.hasPiece_nil] at hi'
    exact hi'.1
  · obtain ⟨hne, hx⟩ := lookup_erase_cases hx
    rw [hother p hne, h.told p x hx i hi]

lemma heard_message_of_ne {p : PeerAddr} (hne : p ≠ peer) (m : AvailabilityMessage) :
    heard p (es ++ [.message peer m]) = heard p es := by
  rw [heard_snoc, hear, if_neg hne.symm]

section

variable (h : Matches n es s)
include h

lemma Matches.onMessage (he : s.connected peer = some e) {m : AvailabilityMessage}
    (hm : e.known.Fits s.availability m) :
    Matches n (es ++ [.message peer m]) (s.onMessage peer m e) := by
  obtain ⟨hlook, hw⟩ := connected_eq_some he
  unfold PeerCounts.onMessage
  split
  · exact h.onPeerDied he fun p hne => heard_message_of_ne hne m
  · split
    · exact h.onPeerDied he fun p hne => heard_message_of_ne hne m
    · rename_i availability known hr
      refine h.replace he hw ((PeerHave.pieceCount_receive hr).trans h.pieceCount)
        (PeerHave.receive_counts (h.counts_of he) hm hr) (fun p hne => heard_message_of_ne hne m)
        fun i hi => ?_
      have hbits : ∀ j < s.availability.pieceCount,
          e.known.bitfield.hasPiece j = toldPieces (heard peer es) j := by
        intro j hj
        rw [h.told peer e hlook j (h.pieceCount ▸ hj), hw, Bool.true_and]
      rw [heard_snoc, hear, if_pos rfl, toldPieces_snoc]
      exact PeerHave.receive_told hbits hm hr i (h.pieceCount.symm ▸ hi)

/-- A peer without a connection gets an entry that says nothing of its pieces. -/
lemma Matches.enter {wired fast : Bool} (hnot : ∀ e ∈ s.peers.lookup peer, e.wired = false)
    (hfew : s.connectedCount + wired.toNat < 65535)
    (hother : ∀ p, p ≠ peer → heard p (es ++ [ev]) = heard p es)
    (hself : wired → heard peer (es ++ [ev]) = []) :
    Matches n (es ++ [ev]) { s with peers := s.peers.insert peer ⟨wired, { fast }⟩ } := by
  refine ⟨h.pieceCount, ?_, fun i hi => ?_, fun p x hx i hi => ?_⟩
  · rw [connectedCount, countP_insert, countP_erase_of_not _ hnot]
    cases wired <;> exact hfew
  · rw [h.counts i hi, countP_insert, countP_erase_of_not]
    · rfl
    · intro e he
      rw [h.told peer e he i hi, hnot e he, Bool.false_and]
  · obtain ⟨rfl, rfl⟩ | ⟨hne, hx⟩ := lookup_insert_cases hx
    · cases wired with
      | false => rfl
      | true => rw [hself rfl]; rfl
    · rw [hother p hne, h.told p x hx i hi]

lemma Matches.step (hok : s.Stored ev) (hs : s.step ev = some s') : Matches n (es ++ [ev]) s' := by
  cases ev with
  | seen peer =>
    simp only [PeerCounts.step, addIfNotSeen, ite_none_left_eq_some, some.injEq] at hs
    obtain ⟨hnot, rfl⟩ := hs
    refine h.enter (fun e he => ?_) h.few (fun p _ => heard_snoc ..) nofun
    exact absurd (lookup_isSome.1 (isSome_of_mem he)) hnot
  | connect peer fast =>
    simp only [PeerCounts.step, insertLive, ite_none_left_eq_some, some.injEq] at hs
    obtain ⟨hnot, rfl⟩ := hs
    refine h.enter (fun e he => ?_) hok (fun p hne => ?_) fun _ => ?_
    · simpa [mem_def.1 he] using hnot
    · rw [heard_snoc, hear, if_neg hne.symm]
    · rw [heard_snoc, hear, if_pos rfl]
  | message peer m =>
    obtain ⟨e, he, rfl⟩ := map_eq_some_iff.1 hs
    exact h.onMessage he (hok e he)
  | disconnect peer =>
    obtain ⟨e, he, rfl⟩ := map_eq_some_iff.1 hs
    exact h.onPeerDied he fun p _ => heard_snoc ..

lemma Matches.havers_eq {i : Nat} (hi : i < n) : s.availability.count i = s.havers es i := by
  rw [h.counts i hi]
  exact countP_congr fun x hx => by rw [h.told x.1 x.2 (mem_lookup_iff.2 hx) i hi]

end

/-- After any connects, messages and disconnects in which each `Have` finds a byte of the stored
bitfield, the counts are the numbers of connected peers that have the pieces, the stored bitfields
say what each has, and without connected peers every count is zero. -/
theorem counts_match {n : Nat} {es : List PeerEvent} {s : PeerCounts}
    (h : Run step Stored (.new n) es s) :
    (∀ i < n, s.availability.count i = s.havers es i) ∧
      (∀ peer e, s.connected peer = some e → ∀ i < n,
        e.known.bitfield.hasPiece i = toldPieces (heard peer es) i) ∧
      (s.connectedCount = 0 → ∀ i, s.availability.count i = 0) := by
  have hm : Matches n es s := Run.inv_log (I := Matches n) (fun hm => hm.step) h (.new n)
  refine ⟨fun i hi => hm.havers_eq hi, fun peer e he i hi => ?_, fun hzero i => ?_⟩
  · obtain ⟨hlook, hw⟩ := connected_eq_some he
    rw [hm.told peer e hlook i hi, hw, Bool.true_and]
  · rcases lt_or_ge i n with hi | hi
    · rw [hm.havers_eq hi]
      refine Nat.le_zero.1 (hzero ▸ countP_mono_left fun x _ hx => ?_)
      exact (and_eq_true_iff.1 hx).1
    · exact Availability.count_of_le _ _ (hm.pieceCount.symm ▸ hi)

/-- One peer sends a bitfield and a `Have`, another one `HaveAll`, of ten pieces. -/
def twoTell : List PeerEvent :=
  [.connect (localPeer 1) false, .connect (localPeer 2) true,
    .message (localPeer 1) (.bitfield [0xc0, 0]), .message (localPeer 2) .haveAll,
    .message (localPeer 1) (.havePiece 9)]

theorem counts_match_two :
    ∃ s, Run step Stored (.new 10) twoTell s ∧ s.availability.count 9 = 2 :=
  have hrun := Run.of_isSome
  ⟨_, hrun, ((counts_match hrun).1 9 (by decide)).trans (by decide +kernel)⟩

/-- A peer that has no pieces at first, gets one, and leaves. -/
def gotOne : List PeerEvent :=
  [.connect (localPeer 1) false, .message (localPeer 1) (.havePiece 0), .disconnect (localPeer 1)]

/-- The piece of a peer that never sent a bitfield is counted and not stored, so it stays counted
when the peer is gone. -/
theorem counts_match_gone :
    ¬ ∀ (n : Nat) (es : List PeerEvent) (s : PeerCounts), Run step Few (.new n) es s →
      (∀ i < n, s.availability.count i = s.havers es i) ∧
        (∀ peer e, s.connected peer = some e → ∀ i < n,
          e.known.bitfield.hasPiece i = toldPieces (heard peer es) i) ∧
        (s.connectedCount = 0 → ∀ i, s.availability.count i = 0) := by
  intro h
  have hrun : Run step Few (.new 1) gotOne ⟨⟨[1]⟩, ∅⟩ :=
    .cons (by decide : 1 < 65535) rfl (.cons trivial rfl (.cons trivial rfl (.nil _)))
  exact absurd ((h 1 gotOne _ hrun).2.2 rfl 0) (by decide)

end PeerCounts

end BitRev
