import BitRev.Metainfo.Magnet

/-!
# The DHT routing table

`dht/routing.rs`: buckets of at most `k` nodes, each for the ids with one common prefix. Only the
bucket of our own id is split. Times are in milliseconds and may lie before the start of the
process. Of writing the table to disk only `load` is here, from the decoded file on.
-/

namespace BitRev.Dht

abbrev NodeId := Digest

/-- The size of a bucket. -/
def k : Nat := 8

def nodeTimeout : Int := 15 * 60 * 1000

def badFails : Nat := 2

/-- `now.saturating_duration_since(t)`. -/
def since (now t : Int) : Int := max 0 (now - t)

structure CompactNode where
  id : NodeId
  addr : SocketAddr
  deriving DecidableEq

def xorDistance (a b : NodeId) : NodeId := a ^^^ b

/-- `cmp_xor(a, b, target)` is not `Greater`. -/
def xorLe (target a b : NodeId) : Prop :=
  (xorDistance a target).toNat ≤ (xorDistance b target).toNat

instance (target : NodeId) : DecidableRel (xorLe target) := fun a b =>
  inferInstanceAs (Decidable ((xorDistance a target).toNat ≤ (xorDistance b target).toNat))

/-- How many leading bits `a` and `b` have in common. -/
def matchingPrefixBits (a b : NodeId) : Nat :=
  if a = b then 160 else 159 - (xorDistance a b).toNat.log2

def setBit (id : NodeId) (bit : Nat) (value : Bool) : NodeId :=
  let mask : NodeId := 1 <<< (159 - bit)
  if value then id ||| mask else id &&& ~~~mask

/-- `dst` with its first `len` bits those of `src`. -/
def copyPrefix (src dst : NodeId) (len : Nat) : NodeId :=
  let mask : NodeId := ~~~((1 <<< (160 - len)) - 1)
  (dst &&& ~~~mask) ||| (src &&& mask)

inductive NodeStatus where
  | good
  | questionable
  | bad
  deriving DecidableEq

structure Node where
  id : NodeId
  addr : SocketAddr
  lastResponse : Option Int
  lastQuery : Option Int
  fails : Nat
  everResponded : Bool
  deriving DecidableEq

namespace Node

def fromCompact (node : CompactNode) (now : Int) : Node :=
  { id := node.id, addr := node.addr, lastResponse := none, lastQuery := some now, fails := 0,
    everResponded := false }

variable (n : Node)

def contact : CompactNode := ⟨n.id, n.addr⟩

def status (now : Int) : NodeStatus :=
  let recent (t : Option Int) : Bool := t.any fun t => since now t < nodeTimeout
  if n.fails ≥ badFails then .bad
  else if recent n.lastResponse || (n.everResponded && recent n.lastQuery) then .good
  else .questionable

def onResponse (now : Int) : Node :=
  { n with lastResponse := some now, everResponded := true, fails := 0 }

def onQuery (now : Int) : Node := { n with lastQuery := some now }

def onTimeout : Node := { n with fails := min (n.fails + 1) 255 }

end Node

structure Bucket where
  prefixLen : Nat
  bits : NodeId
  nodes : List Node
  lastChanged : Int

namespace Bucket

def covers (b : Bucket) (id : NodeId) : Bool := b.prefixLen ≤ matchingPrefixBits b.bits id

def isStale (b : Bucket) (now : Int) : Bool := nodeTimeout ≤ since now b.lastChanged

/-- `random_id`, from the random bits `rnd`. -/
def randomId (b : Bucket) (rnd : NodeId) : NodeId := copyPrefix b.bits rnd b.prefixLen

def split (b : Bucket) (now : Int) : Bucket × Bucket :=
  let left : Bucket :=
    { prefixLen := b.prefixLen + 1, bits := setBit b.bits b.prefixLen false, nodes := [],
      lastChanged := now }
  let right : Bucket := { left with bits := setBit b.bits b.prefixLen true }
  ({ left with nodes := b.nodes.filter fun n => left.covers n.id },
    { right with nodes := b.nodes.filter fun n => !left.covers n.id })

end Bucket

inductive InsertResult where
  | added
  | updated
  | replaced
  | dropped
  | needPing (addr : SocketAddr) (replacement : CompactNode)

structure RoutingTable where
  id : NodeId
  buckets : List Bucket

/-- Change the first element that `p` holds for. -/
def modifyFirst {α : Type} (p : α → Bool) (f : α → α) : List α → Option (List α)
  | [] => none
  | a :: l => if p a then some (f a :: l) else (modifyFirst p f l).map (a :: ·)

/-- One element is changed, and it is one that passes the test. -/
lemma modifyFirst_some {α : Type} {p : α → Bool} {f : α → α} {l l' : List α}
    (h : modifyFirst p f l = some l') :
    ∃ l₁ a l₂, l = l₁ ++ a :: l₂ ∧ p a ∧ l' = l₁ ++ f a :: l₂ := by
  induction l generalizing l' with
  | nil => cases h
  | cons a l ih =>
    rw [modifyFirst] at h
    split at h
    · rename_i hp
      cases h
      exact ⟨[], a, l, rfl, hp, rfl⟩
    · obtain ⟨l₀, hl, rfl⟩ := Option.map_eq_some_iff.1 h
      obtain ⟨l₁, x, l₂, rfl, hp, rfl⟩ := ih hl
      exact ⟨a :: l₁, x, l₂, rfl, hp, rfl⟩

lemma modifyFirst_mem {α : Type} {p : α → Bool} {f : α → α} {l l' : List α}
    (h : modifyFirst p f l = some l') : ∀ x ∈ l', x ∈ l ∨ ∃ y ∈ l, p y ∧ x = f y := by
  obtain ⟨l₁, a, l₂, rfl, hp, rfl⟩ := modifyFirst_some h
  intro x hx
  rw [List.mem_append, List.mem_cons] at hx
  grind

/-- `None` comes first. -/
def seenLe : Option Int → Option Int → Bool
  | none, _ => true
  | some _, none => false
  | some a, some b => a ≤ b

/-- The first of the elements with the least key, as in `min_by_key`. -/
def minByKey {α β : Type} (le : β → β → Bool) (key : α → β) : List α → Option α
  | [] => none
  | a :: l =>
    match minByKey le key l with
    | none => some a
    | some b => if le (key a) (key b) then some a else some b

namespace RoutingTable

def new (id : NodeId) (now : Int) : RoutingTable :=
  ⟨id, [{ prefixLen := 0, bits := 0, nodes := [], lastChanged := now }]⟩

def nodes (t : RoutingTable) : List Node := t.buckets.flatMap (·.nodes)

def isEmpty (t : RoutingTable) : Bool := t.buckets.all (·.nodes.isEmpty)

variable (t : RoutingTable)

/-- `stale_buckets`: an id to look for in each bucket that needs a refresh. `rnd` gives the random
bits for each of them. -/
def staleBuckets (now : Int) (rnd : Nat → NodeId) : List NodeId :=
  ((t.buckets.filter fun b => b.isStale now && !b.nodes.isEmpty).zipIdx).map fun x =>
    x.1.randomId (rnd x.2)

/-- Change the first node that `p` holds for, and its bucket. -/
def modifyNode (p : Node → Bool) (f : Node → Node) (g : Bucket → Bucket) :
    List Bucket → Option (List Bucket)
  | [] => none
  | b :: bs =>
    match modifyFirst p f b.nodes with
    | some nodes => some (g { b with nodes } :: bs)
    | none => (modifyNode p f g bs).map (b :: ·)

/-- The bucket that covers an id; `none` if there is none, which panics. -/
def bucketIndex (id : NodeId) : Option Nat :=
  t.buckets.findIdx? (·.covers id)

def touchBucket (id : NodeId) (now : Int) : Option RoutingTable :=
  (t.bucketIndex id).map fun i =>
    { t with buckets := t.buckets.modify i fun b => { b with lastChanged := now } }

/-- The loop of `insert`. Our own bucket can be split 160 times. -/
def insertLoop (t : RoutingTable) (node : CompactNode) (now : Int) :
    Nat → Option (RoutingTable × InsertResult)
  | 0 => none
  | fuel + 1 =>
    (t.bucketIndex node.id).bind fun i => (t.buckets[i]?).bind fun b =>
      let put (nodes : List Node) : RoutingTable :=
        { t with buckets := t.buckets.set i { b with nodes, lastChanged := now } }
      if b.nodes.length < k then some (put (b.nodes ++ [.fromCompact node now]), .added)
      else if b.covers t.id && b.prefixLen < 160 then
        let (left, right) := b.split now
        insertLoop { t with buckets := t.buckets.take i ++ left :: right :: t.buckets.drop (i + 1) }
          node now fuel
      else
        match modifyFirst (·.status now = .bad) (fun _ => .fromCompact node now) b.nodes with
        | some nodes => some (put nodes, .replaced)
        | none =>
          match minByKey seenLe (fun n : Node => n.lastResponse.or n.lastQuery)
            (b.nodes.filter (·.status now = .questionable)) with
          | some old => some (t, .needPing old.addr node)
          | none => some (t, .dropped)

def isIpv4 (addr : SocketAddr) : Bool :=
  match addr.ip with
  | .v4 _ => true
  | .v6 _ => false

def insert (node : CompactNode) (now : Int) : Option (RoutingTable × InsertResult) :=
  if node.id = t.id then some (t, .dropped)
  else if !isIpv4 node.addr then some (t, .dropped)
  else
    match modifyNode (·.id = node.id) (fun n => { n with addr := node.addr }.onResponse now)
      (fun b => b) t.buckets with
    | some buckets => ({ t with buckets }.touchBucket node.id now).map (·, .updated)
    | none => t.insertLoop node now 161

def replace (old : SocketAddr) (new : CompactNode) (now : Int) : RoutingTable :=
  { t with
    buckets := (modifyNode (·.addr = old) (fun _ => .fromCompact new now)
      (fun b => { b with lastChanged := now }) t.buckets).getD t.buckets }

def seenQuery (id : NodeId) (addr : SocketAddr) (now : Int) : Option RoutingTable :=
  match modifyNode (·.id = id) (fun n => { n with addr }.onQuery now) (fun b => b) t.buckets with
  | some buckets => some { t with buckets }
  | none => (t.insert ⟨id, addr⟩ now).map (·.1)

def seenResponse (id : NodeId) (addr : SocketAddr) (now : Int) : Option RoutingTable :=
  match modifyNode (·.id = id) (fun n => { n with addr }.onResponse now) (fun b => b) t.buckets with
  | some buckets => { t with buckets }.touchBucket id now
  | none =>
    (t.insert ⟨id, addr⟩ now).map fun r =>
      { r.1 with
        buckets := (modifyNode (·.id = id) (·.onResponse now) (fun b => b) r.1.buckets).getD
          r.1.buckets }

def timedOut (addr : SocketAddr) : RoutingTable :=
  { t with
    buckets := (modifyNode (·.addr = addr) (·.onTimeout) (fun b => b) t.buckets).getD t.buckets }

def closest (target : NodeId) (count : Nat) : List CompactNode :=
  ((t.nodes.insertionSort fun a b => xorLe target a.id b.id).take count).map (·.contact)

end RoutingTable

def decodeCompactPeer (buf : Bytes) : Option SocketAddr :=
  if buf.length ≠ 6 then none
  else some ⟨.v4 (BitVec.ofNat 32 (beToNat (buf.take 4))), (beToNat (buf.drop 4)).toUInt16⟩

/-- `decode_compact_nodes`: the whole chunks of 26 bytes, what is left over being ignored. -/
def decodeCompactNodes (buf : Bytes) : List CompactNode :=
  (List.range (buf.length / 26)).filterMap fun i =>
    let chunk := (buf.drop (26 * i)).take 26
    (decodeCompactPeer (chunk.drop 20)).map fun addr => ⟨.ofBytes (chunk.take 20), addr⟩

/-- What the file `dht.dat` holds. -/
structure DhtDat where
  id : Bytes
  nodes : Bytes

namespace RoutingTable

/-- One turn of the loop of `load`. -/
def loadNode (t : RoutingTable) (now : Int) (node : CompactNode) : Option RoutingTable :=
  match modifyNode (·.id = node.id) (·.onResponse now) (fun b => b) t.buckets with
  | some buckets => some { t with buckets }
  | none =>
    (t.insert node now).map fun r =>
      { r.1 with
        buckets := (modifyNode (·.id = node.id) (·.onResponse now) (fun b => b) r.1.buckets).getD
          r.1.buckets }

/-- `load` from the file's contents, which are `none` where it cannot be read or decoded. The outer
`none` is a panic, the inner one that there is no table to use. -/
def load (dat : Option DhtDat) (now : Int) : Option (Option RoutingTable) :=
  match dat with
  | none => some none
  | some dat =>
    if dat.id.length = 20 then
      ((decodeCompactNodes dat.nodes).foldlM (loadNode · now) (.new (.ofBytes dat.id) now)).map some
    else some none

end RoutingTable

end BitRev.Dht
