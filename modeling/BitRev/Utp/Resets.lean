import BitRev.Utp.Socket

/-!
# Resets between two sockets

Two sockets without connections: whatever is on its way between them, `recv_loop` and `dispatch`
answer each packet of a connection they do not know with a reset, a reset included. Datagrams may
be delivered in any order or get lost. KRPC datagrams go to the DHT and are not followed there.
-/

namespace BitRev.Utp

open UtpSocket List Option Function

def looksLikeKrpc (buf : Bytes) : Bool :=
  2 ≤ buf.length && buf.head? = some (chr 'd') && buf.getLast? = some (chr 'e')

/-- What `recv_loop` makes of a datagram; its buffer has room for 2048 bytes. -/
def receivedPacket (datagram : Bytes) : Option Packet :=
  let buf := datagram.take 2048
  if looksLikeKrpc buf then none
  else if buf.length < headerLen then none
  else
    match Packet.decode buf with
    | .error _ => none
    | .ok pkt => some pkt

/-- A turn of `recv_loop`, with the datagrams it sends back. -/
def UtpSocket.recvFrom (s : UtpSocket) (addr : SocketAddr) (datagram : Bytes) :
    UtpSocket × List Bytes :=
  match receivedPacket datagram with
  | none => (s, [])
  | some pkt => ((s.dispatch addr pkt).1, (s.dispatch addr pkt).2.map Packet.encode)

inductive Side where
  | left | right
  deriving DecidableEq

def Side.other : Side → Side
  | left => right
  | right => left

/-- Two sockets and the datagrams on their way to each of them. -/
structure SocketPair where
  socket : Side → UtpSocket
  inFlight : Side → List Bytes

inductive PairAct where
  | deliver (side : Side) (i : Nat)
  | lose (side : Side) (i : Nat)

namespace SocketPair

/-- No connections, and these datagrams on their way. -/
def start (inFlight : Side → List Bytes) : SocketPair := { socket := fun _ => {}, inFlight }

/-- `address` gives the addresses of the two sockets. -/
def step (address : Side → SocketAddr) (p : SocketPair) : PairAct → Option SocketPair
  | .deliver side i =>
    ((p.inFlight side)[i]?).map fun datagram =>
      let r := (p.socket side).recvFrom (address side.other) datagram
      { socket := Function.update p.socket side r.1
        inFlight := fun s =>
          if s = side then (p.inFlight s).eraseIdx i else p.inFlight s ++ r.2 }
  | .lose side i =>
    ((p.inFlight side)[i]?).map fun _ =>
      { p with inFlight := fun s => if s = side then (p.inFlight s).eraseIdx i else p.inFlight s }

def isReset (datagram : Bytes) : Bool := (receivedPacket datagram).any (·.ty = .reset)

def ResetsLost (p : SocketPair) : PairAct → Prop
  | .deliver side i => ∀ datagram ∈ (p.inFlight side)[i]?, isReset datagram = false
  | .lose .. => True

instance (p : SocketPair) (a : PairAct) : Decidable (p.ResetsLost a) := by
  unfold ResetsLost
  split <;> infer_instance

def Valid (datagram : Bytes) : Prop :=
  ∃ pkt, receivedPacket datagram = some pkt ∧ pkt.ty ≠ .syn

lemma received_reset (pkt : Packet) :
    receivedPacket (resetFor pkt).encode = some (resetFor pkt) := by
  have hlen : (resetFor pkt).encode.length = 20 := by
    simp [Packet.encode, resetFor, Packet.encodeExtensions, length_toBe]
  have hkrpc : looksLikeKrpc (resetFor pkt).encode = false := by
    have hhead : (resetFor pkt).encode.head? =
        some ((PacketType.reset.toU4 <<< 4) ||| (version &&& 0x0f)) := rfl
    have hne : decide (some ((PacketType.reset.toU4 <<< 4) ||| (version &&& 0x0f)) =
        some (chr 'd')) = false := by
      decide
    rw [looksLikeKrpc, hhead, hne, Bool.and_false, Bool.false_and]
  have hsend : (resetFor pkt).Sendable :=
    ⟨rfl, by simp [resetFor], Nat.zero_le _⟩
  unfold receivedPacket
  rw [take_of_length_le (by omega)]
  dsimp only
  rw [hkrpc, if_neg Bool.false_ne_true, if_neg (by rw [hlen]; decide), Packet.decode_encode hsend]

lemma recvFrom_empty {datagram : Bytes} {pkt : Packet} (h : receivedPacket datagram = some pkt)
    (hty : pkt.ty ≠ .syn) (addr : SocketAddr) :
    recvFrom {} addr datagram = ({}, [(resetFor pkt).encode]) := by
  have hdispatch : dispatch {} addr pkt = ({}, [resetFor pkt]) := by
    unfold UtpSocket.dispatch
    rw [AList.lookup_empty]
    exact if_neg hty
  rw [recvFrom, h]
  dsimp only
  rw [hdispatch]
  rfl

variable {address : Side → SocketAddr} {p p' : SocketPair}

/-- What can still happen to a datagram: it is answered and its answer lost. -/
def weight (datagram : Bytes) : Nat := if isReset datagram then 1 else 2

def load (datagrams : List Bytes) : Nat := (datagrams.map weight).sum

lemma load_cons (d : Bytes) (ds : List Bytes) : load (d :: ds) = weight d + load ds := rfl

lemma load_eraseIdx {datagrams : List Bytes} {i : Nat} {d : Bytes} (h : datagrams[i]? = some d) :
    load (datagrams.eraseIdx i) + weight d = load datagrams := by
  induction datagrams generalizing i with
  | nil => cases h
  | cons d' ds ih =>
    cases i with
    | zero =>
      cases h
      rw [eraseIdx_cons_zero, load_cons, Nat.add_comm]
    | succ i =>
      have := ih h
      rw [eraseIdx_cons_succ, load_cons, load_cons]
      omega

lemma load_le (datagrams : List Bytes) : load datagrams ≤ 2 * datagrams.length := by
  induction datagrams with
  | nil => exact Nat.le_refl 0
  | cons d ds ih =>
    have hw : weight d ≤ 2 := by
      unfold weight
      split <;> omega
    rw [length_cons, load_cons]
    omega

structure Idle (p : SocketPair) : Prop where
  socket : ∀ side, p.socket side = {}
  valid : ∀ side, ∀ d ∈ p.inFlight side, Valid d

def total (p : SocketPair) : Nat := load (p.inFlight .left) + load (p.inFlight .right)

lemma total_eq (p : SocketPair) (side : Side) :
    p.total = load (p.inFlight side) + load (p.inFlight side.other) := by
  cases side
  · rfl
  · exact Nat.add_comm _ _

lemma other_ne (side : Side) : side.other ≠ side := by cases side <;> decide

/-- What is delivered is answered. -/
lemma Idle.deliver (address : Side → SocketAddr) (h : p.Idle) {side : Side} {i : Nat} {d : Bytes}
    (hd : (p.inFlight side)[i]? = some d) :
    ∃ pkt p', p.step address (.deliver side i) = some p' ∧ p'.Idle ∧
      p'.inFlight side = (p.inFlight side).eraseIdx i ∧
      p'.inFlight side.other = p.inFlight side.other ++ [(resetFor pkt).encode] := by
  obtain ⟨pkt, hpkt, hty⟩ := h.valid side d (mem_of_getElem? hd)
  have hrecv := recvFrom_empty hpkt hty (address side.other)
  have hs : p.step address (.deliver side i) = some
      { socket := update p.socket side {}, inFlight := fun s =>
        if s = side then (p.inFlight s).eraseIdx i else p.inFlight s ++ [(resetFor pkt).encode] } := by
    simp only [SocketPair.step, hd, map_some, h.socket side, hrecv]
  refine ⟨pkt, _, hs, ⟨fun s => ?_, fun s d' hd' => ?_⟩, if_pos rfl,
    if_neg (other_ne side)⟩
  · rcases eq_or_ne s side with rfl | hne
    · exact update_self ..
    · exact (update_of_ne hne _ _).trans (h.socket s)
  · dsimp only at hd'
    split at hd'
    · exact h.valid s d' (mem_of_mem_eraseIdx hd')
    · exact forall_mem_append.2 ⟨h.valid s, forall_mem_singleton.2
        ⟨_, received_reset pkt, by simp [resetFor]⟩⟩ d' hd'

/-- Every step takes something away. -/
lemma Idle.step {a : PairAct} (h : p.Idle) (hok : p.ResetsLost a)
    (hs : p.step address a = some p') : p'.Idle ∧ p'.total + 1 ≤ p.total := by
  cases a with
  | deliver side i =>
    obtain ⟨d, hd, -⟩ := map_eq_some_iff.1 hs
    obtain ⟨pkt, p₁, hstep, hidle, hside, hother⟩ := h.deliver address hd
    cases hs.symm.trans hstep
    refine ⟨hidle, ?_⟩
    rw [total_eq _ side, total_eq p side, hside, hother]
    have hold := load_eraseIdx hd
    have hnew : load (p.inFlight side.other ++ [(resetFor pkt).encode]) =
        load (p.inFlight side.other) + 1 := by
      have hw : weight (resetFor pkt).encode = 1 := by
        rw [weight, isReset, received_reset]
        rfl
      simp [load, hw]
    have hw : weight d = 2 := by
      rw [weight, hok d hd]
      rfl
    omega
  | lose side i =>
    obtain ⟨d, hd, rfl⟩ := map_eq_some_iff.1 hs
    refine ⟨⟨h.socket, fun s d' hd' => ?_⟩, ?_⟩
    · dsimp only at hd'
      split at hd'
      · exact h.valid s d' (mem_of_mem_eraseIdx hd')
      · exact h.valid s d' hd'
    · rw [total_eq _ side, total_eq p side]
      dsimp only
      rw [if_pos rfl, if_neg (other_ne side)]
      have hold := load_eraseIdx hd
      have hw : 1 ≤ weight d := by
        unfold weight
        split <;> omega
      omega

/-- Without losses the exchange goes on for as long as anything is in flight. -/
lemma Idle.goes_on (address : Side → SocketAddr) (h : p.Idle)
    (hne : ∃ side, p.inFlight side ≠ []) (n : Nat) :
    ∃ acts p', acts.length = n ∧ (∀ a ∈ acts, ∃ side i, a = .deliver side i) ∧
      Run (SocketPair.step address) anyStep p acts p' ∧ ∃ side, p'.inFlight side ≠ [] := by
  induction n generalizing p with
  | zero => exact ⟨[], p, rfl, nofun, .nil _, hne⟩
  | succ n ih =>
    obtain ⟨side, hne⟩ := hne
    obtain ⟨d, ds, hd⟩ := exists_cons_of_ne_nil hne
    obtain ⟨pkt, p₁, hs, hidle, -, hother⟩ :=
      h.deliver address (i := 0) (congrArg (·[0]?) hd)
    obtain ⟨acts, p', hlen, hacts, hrun, hend⟩ := ih hidle ⟨side.other, by simp [hother]⟩
    exact ⟨_, p', congrArg (· + 1) hlen, forall_mem_cons.2 ⟨⟨side, 0, rfl⟩, hacts⟩,
      .cons trivial hs hrun, hend⟩

/-- What is in flight bounds the steps. -/
lemma Idle.run {acts : List PairAct} (hrun : Run (SocketPair.step address) ResetsLost p acts p')
    (h : p.Idle) : p'.Idle ∧ acts.length + p'.total ≤ p.total := by
  induction hrun with
  | nil => exact ⟨h, by simp⟩
  | cons hok hs _ ih =>
    obtain ⟨hidle, hless⟩ := h.step hok hs
    obtain ⟨hidle', hrest⟩ := ih hidle
    refine ⟨hidle', ?_⟩
    rw [length_cons]
    omega

lemma nothing_left (h : ∀ a, p.ResetsLost a → p.step address a = none) (side : Side) :
    p.inFlight side = [] := by
  have hlose := h (.lose side 0) trivial
  have hnone := map_eq_none_iff.1 hlose
  rwa [getElem?_eq_none_iff, Nat.le_zero, length_eq_zero_iff] at hnone

/-- Two sockets without connections: with resets lost on the way, whatever is in flight between them
and in whatever order it is delivered, the exchange comes to an end with nothing in flight. Without
losses it does so only if nothing is in flight at the start. -/
theorem exchange_ends {inFlight : Side → List Bytes} (hvalid : ∀ side, ∀ d ∈ inFlight side, Valid d)
    {acts : List PairAct} (hrun : Run (step address) ResetsLost (start inFlight) acts p) :
    acts.length ≤ 2 * ((inFlight .left).length + (inFlight .right).length) ∧
      (∀ side, p.socket side = {}) ∧
      ((∀ a, p.ResetsLost a → p.step address a = none) → ∀ side, p.inFlight side = []) ∧
      ((∃ bound, ∀ acts p', (∀ a ∈ acts, ∃ side i, a = .deliver side i) →
          Run (step address) anyStep (start inFlight) acts p' → acts.length ≤ bound) ↔
        ∀ side, inFlight side = []) := by
  have hstart : (start inFlight).Idle := ⟨fun _ => rfl, hvalid⟩
  obtain ⟨hidle, hlen⟩ := Idle.run hrun hstart
  refine ⟨?_, hidle.socket, nothing_left, fun ⟨bound, hbound⟩ => ?_, fun hnone => ⟨0, ?_⟩⟩
  rotate_left
  · by_contra hsome
    obtain ⟨acts, p', hacts, hdeliver, hrun, -⟩ :=
      hstart.goes_on address (not_forall.1 hsome) (bound + 1)
    have := hbound acts p' hdeliver hrun
    omega
  · rintro acts p' hdeliver (_ | ⟨-, hs, -⟩)
    · exact le_rfl
    · obtain ⟨side, i, rfl⟩ := hdeliver _ mem_cons_self
      simp [SocketPair.step, start, hnone] at hs
  have hl := load_le (inFlight .left)
  have hr := load_le (inFlight .right)
  have htotal : (start inFlight).total = load (inFlight .left) + load (inFlight .right) := rfl
  omega

def oneInFlight (pkt : Packet) : Side → List Bytes
  | .left => [pkt.encode]
  | .right => []

def strayData : Packet :=
  { ty := .data, connectionId := 7, seqNr := 3, ackNr := 4, payload := [1, 2, 3] }

def bothAddresses : Side → SocketAddr
  | .left => ⟨.v4 0x7f000001, 1⟩
  | .right => ⟨.v4 0x7f000001, 2⟩

lemma strayData_valid : ∀ side, ∀ d ∈ oneInFlight strayData side, Valid d := by
  intro side d hd
  cases side with
  | left =>
    obtain rfl := mem_singleton.1 hd
    exact ⟨strayData, by decide +kernel, by decide⟩
  | right => cases hd

theorem exchange_ends_stray :
    ∃ p, Run (step bothAddresses) ResetsLost (start (oneInFlight strayData))
      [.deliver .left 0, .lose .right 0] p ∧ ∀ side, p.socket side = {} :=
  have hrun := Run.of_isSome
  ⟨_, hrun, (exchange_ends strayData_valid hrun).2.1⟩

/-- A stray packet keeps two sockets sending resets to each other for as long as they arrive. -/
theorem resets_forever :
    (start (oneInFlight strayData)).Idle ∧
      ∀ n, ∃ acts p, acts.length = n ∧ (∀ a ∈ acts, ∃ side i, a = .deliver side i) ∧
        Run (step bothAddresses) anyStep (start (oneInFlight strayData)) acts p ∧
        ∃ side, p.inFlight side ≠ [] := by
  have hstart : (start (oneInFlight strayData)).Idle := ⟨fun _ => rfl, strayData_valid⟩
  exact ⟨hstart, hstart.goes_on bothAddresses ⟨.left, cons_ne_nil _ _⟩⟩

end SocketPair

end BitRev.Utp
