import BitRev.Dht.Routing

/-!
# KRPC messages and lookups

`dht/krpc.rs`: the queries and answers of the DHT, as values; their bencoding is left out.
`dht/lookup.rs`: an iterative lookup asks the closest nodes it knows of that have not been asked,
at most `alpha` at a time, and learns of more from their answers.
-/

namespace BitRev.Dht

inductive Query where
  | ping (id : NodeId)
  | findNode (id target : NodeId)
  | getPeers (id infoHash : NodeId)
  | announcePeer (id infoHash : NodeId) (port : UInt16) (token : Bytes) (impliedPort : Bool)
  deriving DecidableEq

namespace Query

/-- The sender. -/
def id : Query → NodeId
  | ping id | findNode id _ | getPeers id _ | announcePeer id _ _ _ _ => id

/-- The info hash a query is about; `find_node` asks for nodes, not for peers. -/
def infoHash : Query → Option NodeId
  | getPeers _ h | announcePeer _ h _ _ _ => some h
  | _ => none

end Query

structure Response where
  id : NodeId
  nodes : List CompactNode := []
  values : List SocketAddr := []
  token : Option Bytes := none
  deriving DecidableEq

inductive Payload where
  | query (q : Query)
  | response (r : Response)
  | error (code : Int) (message : String)
  deriving DecidableEq

/-- The version field, which is always ours, is left out. -/
structure KrpcMessage where
  transactionId : Bytes
  payload : Payload
  deriving DecidableEq

def errProtocol : Int := 203

def errMethod : Int := 204

/-- How many nodes a lookup asks at once. -/
def alpha : Nat := 3

inductive LookupKind where
  | findNode
  | getPeers
  deriving DecidableEq

inductive ContactState where
  | unknown
  | pending
  | responded
  | failed
  deriving DecidableEq

structure Contact where
  node : CompactNode
  state : ContactState := .unknown
  token : Option Bytes := none

structure Lookup where
  target : NodeId
  kind : LookupKind
  contacts : AList fun _ : SocketAddr => Contact := ∅
  seenIds : List NodeId := []
  values : List SocketAddr := []

namespace Lookup

section

variable (l : Lookup)

def contactList : List Contact := l.contacts.entries.map (·.2)

def addContact (node : CompactNode) : Lookup :=
  if node.id ∈ l.seenIds then l
  else if node.addr ∈ l.contacts then l
  else
    { l with
      seenIds := l.seenIds ++ [node.id]
      contacts := l.contacts.insert node.addr { node } }

def new (target : NodeId) (kind : LookupKind) (seeds : List CompactNode) : Lookup :=
  seeds.foldl addContact { target, kind }

def modifyContact (addr : SocketAddr) (f : Contact → Contact) : Lookup :=
  match l.contacts.lookup addr with
  | some c => { l with contacts := l.contacts.insert addr (f c) }
  | none => l

def sorted (cs : List Contact) : List Contact :=
  cs.insertionSort fun a b => xorLe l.target a.node.id b.node.id

def pendingCount : Nat := l.contactList.countP (·.state = .pending)

/-- The nodes to ask next, which are then waited for. -/
def nextQueries : Lookup × List CompactNode :=
  let unknown := l.sorted (l.contactList.filter (·.state = .unknown))
  let chosen := (unknown.take (alpha - l.pendingCount)).map (·.node)
  (chosen.foldl (fun l node => l.modifyContact node.addr fun c => { c with state := .pending }) l,
    chosen)

def onTimeout (addr : SocketAddr) : Lookup :=
  l.modifyContact addr fun c => if c.state = .pending then { c with state := .failed } else c

def addValues (values : List SocketAddr) : List SocketAddr → List SocketAddr × List SocketAddr
  | [] => (values, [])
  | addr :: addrs =>
    if addr ∈ values then addValues values addrs
    else
      let (all, new) := addValues (values ++ [addr]) addrs
      (all, addr :: new)

def onResponse (src : SocketAddr) (id : NodeId) (r : Response) : Lookup × List SocketAddr :=
  let l :=
    match l.contacts.lookup src with
    | some c =>
      { l with
        contacts := l.contacts.insert src
          { node := { c.node with id }, state := .responded, token := r.token } }
    | none =>
      { l with
        contacts := l.contacts.insert src
          { node := ⟨id, src⟩, state := .responded, token := r.token }
        seenIds := l.seenIds ++ [id] }
  let l := r.nodes.foldl addContact l
  let (values, new) := addValues l.values r.values
  ({ l with values }, new)

def closestContacts (count : Nat) : List Contact := (l.sorted l.contactList).take count

def noCloserUnknown : Bool :=
  match (l.closestContacts k).getLast? with
  | none => true
  | some worst => !l.contactList.any fun c =>
      c.state = .unknown && ¬xorLe l.target worst.node.id c.node.id

def isDone : Bool :=
  if l.contactList.any (·.state = .pending) then false
  else if l.contactList.any (·.state = .unknown) then
    if (l.closestContacts k).any fun c => c.state = .unknown || c.state = .pending then false
    else l.noCloserUnknown
  else true

def announceTargets : List (CompactNode × Bytes) :=
  (l.closestContacts k).filterMap fun c => c.token.map (c.node, ·)

end

/-! ## What a lookup is for stays the same -/

variable (l : Lookup)

@[simp] lemma addContact_target (node : CompactNode) :
    (l.addContact node).target = l.target ∧ (l.addContact node).kind = l.kind := by
  unfold addContact
  split
  · exact ⟨rfl, rfl⟩
  split <;> exact ⟨rfl, rfl⟩

lemma foldl_addContact_target (nodes : List CompactNode) (l : Lookup) :
    (nodes.foldl addContact l).target = l.target ∧ (nodes.foldl addContact l).kind = l.kind := by
  refine List.foldlRecOn nodes addContact (motive := fun l' => l'.target = l.target ∧
    l'.kind = l.kind) ⟨rfl, rfl⟩ fun l₁ h node _ => ?_
  exact ⟨(addContact_target l₁ node).1.trans h.1, (addContact_target l₁ node).2.trans h.2⟩

lemma new_target (target : NodeId) (kind : LookupKind) (seeds : List CompactNode) :
    (new target kind seeds).target = target ∧ (new target kind seeds).kind = kind :=
  foldl_addContact_target seeds _

lemma modifyContact_target (addr : SocketAddr) (f : Contact → Contact) :
    (l.modifyContact addr f).target = l.target ∧ (l.modifyContact addr f).kind = l.kind := by
  unfold modifyContact
  split <;> exact ⟨rfl, rfl⟩

lemma nextQueries_target : l.nextQueries.1.target = l.target ∧ l.nextQueries.1.kind = l.kind := by
  refine List.foldlRecOn (motive := fun b : Lookup => b.target = l.target ∧ b.kind = l.kind) _ _
    ⟨rfl, rfl⟩ fun b hb node _ => ?_
  have hm := modifyContact_target b node.addr fun c => { c with state := .pending }
  exact ⟨hm.1.trans hb.1, hm.2.trans hb.2⟩

lemma onTimeout_target (addr : SocketAddr) :
    (l.onTimeout addr).target = l.target ∧ (l.onTimeout addr).kind = l.kind :=
  modifyContact_target l addr _

lemma onResponse_target (src : SocketAddr) (id : NodeId) (r : Response) :
    (l.onResponse src id r).1.target = l.target ∧ (l.onResponse src id r).1.kind = l.kind := by
  unfold onResponse
  dsimp only
  split <;> exact foldl_addContact_target r.nodes _

end Lookup

end BitRev.Dht
