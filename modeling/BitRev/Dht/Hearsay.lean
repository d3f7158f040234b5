import BitRev.Dht.Moves

/-!
# What a packet changes in the routing table

A node that sends us a packet is known to be there; the nodes it lists are not. `insert` takes both
for contacts, so a listed node whose entry exists is marked as having answered.

* `insert_mem`: the entries after an `insert` are those before, and one with the id inserted.
* `DhtActor.packet_keeps`: a packet changes no entry but that of its sender, if the nodes it lists are
  new to the table and each is listed once.
-/

namespace BitRev.Dht

open List Option

namespace RoutingTable

variable {t t' : RoutingTable} {node : CompactNode} {now : Int} {n : Node} {id : NodeId}
  {r : InsertResult} {addr : SocketAddr}

lemma mem_nodes : n ∈ t.nodes ↔ ∃ b ∈ t.buckets, n ∈ b.nodes := mem_flatMap

/-- A change of the first entry with an id changes entries with that id only. -/
lemma modifyNode_mem {f : Node → Node} {bs bs' : List Bucket}
    (h : modifyNode (·.id = id) f (fun b => b) bs = some bs') (hf : ∀ n, (f n).id = n.id)
    (hn : n ∈ bs'.flatMap (·.nodes)) :
    n ∈ bs.flatMap (·.nodes) ∨ n.id = id ∧ ∃ m ∈ bs.flatMap (·.nodes), m.id = id := by
  induction bs generalizing bs' with
  | nil => cases h
  | cons b bs ih =>
    rw [modifyNode] at h
    simp only [flatMap_cons, mem_append] at hn ⊢
    split at h
    · rename_i nodes hm
      cases h
      simp only [flatMap_cons, mem_append] at hn
      rcases hn with hn | hn
      · rcases modifyFirst_mem hm n hn with hn | ⟨m, hmem, hid, rfl⟩
        · exact .inl (.inl hn)
        · have hid := of_decide_eq_true hid
          exact .inr ⟨(hf m).trans hid, m, .inl hmem, hid⟩
      · exact .inl (.inr hn)
    · obtain ⟨bs₁, h₁, rfl⟩ := map_eq_some_iff.1 h
      simp only [flatMap_cons, mem_append] at hn
      rcases hn with hn | hn
      · exact .inl (.inl hn)
      · rcases ih h₁ hn with hn | ⟨hid, m, hm, hmid⟩
        · exact .inl (.inr hn)
        · exact .inr ⟨hid, m, .inr hm, hmid⟩

lemma touchBucket_mem (h : t.touchBucket id now = some t') (hn : n ∈ t'.nodes) : n ∈ t.nodes := by
  obtain ⟨i, -, rfl⟩ := map_eq_some_iff.1 h
  obtain ⟨b, hb, hn⟩ := mem_nodes.1 hn
  obtain ⟨j, hj⟩ := mem_iff_getElem?.1 hb
  rw [getElem?_modify] at hj
  obtain ⟨b₀, hb₀, rfl⟩ := map_eq_some_iff.1 hj
  refine mem_nodes.2 ⟨b₀, mem_of_getElem? hb₀, ?_⟩
  split at hn <;> exact hn

lemma insertLoop_mem {fuel : Nat} (h : t.insertLoop node now fuel = some (t', r))
    (hn : n ∈ t'.nodes) : n ∈ t.nodes ∨ n = .fromCompact node now := by
  induction fuel generalizing t with
  | zero => cases h
  | succ fuel ih =>
    obtain ⟨i, -, h⟩ := bind_eq_some_iff.1 h
    obtain ⟨b, hb, h⟩ := bind_eq_some_iff.1 h
    have hbt := mem_of_getElem? hb
    -- The bucket gets other nodes.
    have hput : ∀ nodes : List Node, (∀ m ∈ nodes, m ∈ b.nodes ∨ m = .fromCompact node now) →
        n ∈ ({ t with buckets := t.buckets.set i { b with nodes, lastChanged := now } }
          : RoutingTable).nodes → n ∈ t.nodes ∨ n = .fromCompact node now := by
      intro nodes hnodes hn
      obtain ⟨b', hb', hn⟩ := mem_nodes.1 hn
      rcases mem_or_eq_of_mem_set hb' with hb' | rfl
      · exact .inl (mem_nodes.2 ⟨b', hb', hn⟩)
      · exact (hnodes n hn).imp_left fun hn => mem_nodes.2 ⟨b, hbt, hn⟩
    dsimp only at h
    split at h
    · cases h
      exact hput _ (fun m hm => by simpa using hm) hn
    split at h
    · rcases ih h with hn | hn
      · refine .inl ?_
        obtain ⟨b', hb', hn⟩ := mem_nodes.1 hn
        simp only [mem_append, mem_cons] at hb'
        rcases hb' with hb' | rfl | rfl | hb'
        · exact mem_nodes.2 ⟨b', mem_of_mem_take hb', hn⟩
        · exact mem_nodes.2 ⟨b, hbt, (mem_filter.1 hn).1⟩
        · exact mem_nodes.2 ⟨b, hbt, (mem_filter.1 hn).1⟩
        · exact mem_nodes.2 ⟨b', mem_of_mem_drop hb', hn⟩
      · exact .inr hn
    split at h
    · rename_i nodes hm
      cases h
      exact hput _ (fun m hmem => (modifyFirst_mem hm m hmem).imp_right fun ⟨_, _, _, h⟩ => h) hn
    split at h <;> cases h <;> exact .inl hn

lemma insert_mem (h : t.insert node now = some (t', r)) (hn : n ∈ t'.nodes) :
    n ∈ t.nodes ∨ (node.id ≠ t.id ∧ isIpv4 node.addr) ∧
      (n = .fromCompact node now ∨ n.id = node.id ∧ ∃ m ∈ t.nodes, m.id = node.id) := by
  unfold insert at h
  split at h
  · cases h
    exact .inl hn
  rename_i hid
  split at h
  · cases h
    exact .inl hn
  rename_i hip
  rw [Bool.not_eq_true', Bool.not_eq_false] at hip
  split at h
  · rename_i bs hbs
    obtain ⟨t₁, h₁, heq⟩ := map_eq_some_iff.1 h
    cases heq
    exact (modifyNode_mem hbs (fun _ => rfl) (touchBucket_mem h₁ hn)).imp_right
      fun hmod => ⟨⟨hid, hip⟩, .inr hmod⟩
  · exact (insertLoop_mem h hn).imp_right fun hnew => ⟨⟨hid, hip⟩, .inl hnew⟩

/-- Every entry is one of `t₀`, or that of the sender `i`, or new and never heard of. -/
def Heard (i : NodeId) (t₀ t : RoutingTable) : Prop :=
  ∀ n ∈ t.nodes, n.id = i ∨ n ∈ t₀.nodes ∨
    (n.lastResponse = none ∧ n.everResponded = false) ∧ ∀ m ∈ t₀.nodes, m.id ≠ n.id

lemma heard_insert_sender {i : NodeId}
    (h : t.insert ⟨i, addr⟩ now = some (t', r)) : Heard i t t' := by
  intro n hn
  rcases insert_mem h hn with hn | ⟨-, rfl | ⟨hid, -⟩⟩
  · exact .inr (.inl hn)
  · exact .inl rfl
  · exact .inl hid

lemma heard_modify {i : NodeId} {f : Node → Node} {bs : List Bucket}
    (h : modifyNode (·.id = i) f (fun b => b) t.buckets = some bs) (hf : ∀ n, (f n).id = n.id) :
    Heard i t { t with buckets := bs } := fun n hn => by
  rcases modifyNode_mem h hf hn with hn | ⟨hid, -⟩
  · exact .inr (.inl hn)
  · exact .inl hid

lemma seenQuery_heard (h : t.seenQuery id addr now = some t') : Heard id t t' := by
  unfold seenQuery at h
  split at h
  · rename_i bs hbs
    cases h
    exact heard_modify hbs fun _ => rfl
  · obtain ⟨r, hr, rfl⟩ := map_eq_some_iff.1 h
    exact heard_insert_sender hr

lemma seenResponse_heard (h : t.seenResponse id addr now = some t') : Heard id t t' := by
  unfold seenResponse at h
  split at h
  · rename_i bs hbs
    exact fun n hn => heard_modify hbs (fun _ => rfl) n (touchBucket_mem h hn)
  · obtain ⟨r, hr, rfl⟩ := map_eq_some_iff.1 h
    intro n hn
    cases hm : modifyNode (·.id = id) (·.onResponse now) (fun b => b) r.1.buckets with
    | none =>
      rw [hm] at hn
      exact heard_insert_sender hr n hn
    | some bs =>
      rw [hm] at hn
      rcases modifyNode_mem hm (fun _ => rfl) hn with hn | ⟨hid, -⟩
      · exact heard_insert_sender hr n hn
      · exact .inl hid

/-- When the nodes are inserted one after the other, each is the sender `i`, or is refused, or is
known neither then nor in `t₀`. -/
def unheard (i : NodeId) (t₀ : RoutingTable) (now : Int) : RoutingTable → List CompactNode → Bool
  | _, [] => true
  | t, node :: nodes =>
    (node.id = i || node.id = t.id || !isIpv4 node.addr ||
      (t₀.nodes ++ t.nodes).all (·.id ≠ node.id)) &&
    (t.insert node now).all fun r => unheard i t₀ now r.1 nodes

lemma learn_heard {i : NodeId} {t₀ : RoutingTable} {nodes : List CompactNode}
    (hnew : unheard i t₀ now t nodes) (ht : Heard i t₀ t)
    (h : DhtActor.learn now t nodes = some t') : Heard i t₀ t' := by
  induction nodes generalizing t with
  | nil =>
    cases h
    exact ht
  | cons node nodes ih =>
    obtain ⟨⟨t₁, r⟩, hr, h⟩ := bind_eq_some_iff.1 h
    rw [unheard, hr, Bool.and_eq_true] at hnew
    refine ih hnew.2 (fun n hn => ?_) h
    rcases insert_mem hr hn with hn | ⟨⟨hid, hip⟩, hcase⟩
    · exact ht n hn
    rcases eq_or_ne node.id i with hi | hi
    · rcases hcase with rfl | ⟨hn, -⟩
      · exact .inl hi
      · exact .inl (hn.trans hi)
    · -- The node is new, so it is added as one that was never heard of.
      obtain ⟨hbefore, habsent⟩ : (∀ m ∈ t₀.nodes, m.id ≠ node.id) ∧
          ∀ m ∈ t.nodes, m.id ≠ node.id := by
        simpa [hi, hid, hip] using hnew.1
      rcases hcase with rfl | ⟨-, m, hm, heq⟩
      · exact .inr (.inr ⟨⟨rfl, rfl⟩, hbefore⟩)
      · exact absurd heq (habsent m hm)

end RoutingTable

namespace DhtActor

variable {sha1 : Bytes → Digest} {a a' : DhtActor}

/-- The node that a packet says it is from, and the nodes it lists. -/
def Datagram.sender : Datagram → Option NodeId
  | .message ⟨_, .query q⟩ => some q.id
  | .message ⟨_, .response r⟩ => some r.id
  | _ => none

/-- A response lists no node that is known when it is inserted, but for those that are refused. -/
def Datagram.Unheard (d : Datagram) (src : SocketAddr) (now : Int) (t : RoutingTable) : Prop :=
  ∀ tid r, d = .message ⟨tid, .response r⟩ →
    ∀ t₁ ∈ t.seenResponse r.id src now, RoutingTable.unheard r.id t now t₁ r.nodes

lemma onResponse_table {now : Int} {tid : Bytes} {r : Response} {src : SocketAddr}
    (h : a.onResponse now tid r src = some a') : a'.table = a.table ∨
      ∃ t₁, a.table.seenResponse r.id src now = some t₁ ∧ learn now t₁ r.nodes = some a'.table := by
  unfold DhtActor.onResponse at h
  split at h
  · cases h
    exact .inl rfl
  obtain ⟨t₁, h₁, h⟩ := bind_eq_some_iff.1 h
  obtain ⟨t₂, h₂, rfl⟩ := map_eq_some_iff.1 h
  refine .inr ⟨t₁, h₁, h₂.trans (congrArg some (Eq.symm ?_))⟩
  -- What follows leaves the table alone.
  have hrest : ∀ {b b' : DhtActor}, Moves False (fun _ _ => True) b b' → b'.table = b.table :=
    fun h => h.table_eq
  dsimp only
  split
  · split
    · exact hrest (startFindSelf_moves.trans kickLookups_moves)
    · rfl
  · exact hrest (onLookupResponse_moves _ src r)
  · rfl

/-- A packet from a node that claims the id `i`, handled at any time in any state of the actor: the
entries with other ids are those there were, unchanged, and new ones that are not good. -/
theorem packet_keeps (sha1 : Bytes → Digest) (a a' : DhtActor) (now : Int) (src : SocketAddr)
    (d : Datagram) (i : NodeId) (hi : d.sender = some i) (hd : d.Unheard src now a.table)
    (h : a.onPacket sha1 now src d = some a') (n : Node) (hn : n ∈ a'.table.nodes)
    (hne : n.id ≠ i) :
    n ∈ a.table.nodes ∨
      (∀ m ∈ a.table.nodes, m.id ≠ n.id) ∧ ∀ t, n.status t ≠ .good := by
  -- An entry that was never heard of is not good.
  have hstatus : n.lastResponse = none → n.everResponded = false → ∀ t, n.status t ≠ .good := by
    intro hl he t
    simp only [Node.status, hl, he]
    split <;> simp
  cases d with
  | unknownMethod | malformed => cases hi
  | message msg =>
    obtain ⟨tid, payload⟩ := msg
    cases payload with
    | error => cases hi
    | query q =>
      cases hi
      obtain ⟨t, ht, rfl⟩ := map_eq_some_iff.1 h
      rcases RoutingTable.seenQuery_heard ht n hn with hid | hn | ⟨⟨hl, he⟩, hold⟩
      · exact absurd hid hne
      · exact .inl hn
      · exact .inr ⟨hold, hstatus hl he⟩
    | response r =>
      cases hi
      rcases onResponse_table h with heq | ⟨t₁, h₁, h₂⟩
      · exact .inl (heq ▸ hn)
      have hheard := RoutingTable.learn_heard (hd tid r rfl t₁ h₁)
        (RoutingTable.seenResponse_heard h₁) h₂
      rcases hheard n hn with hid | hn | ⟨⟨hl, he⟩, hold⟩
      · exact absurd hid hne
      · exact .inl hn
      · exact .inr ⟨hold, hstatus hl he⟩

def oneNode : DhtActor :=
  { table := ⟨0, [⟨0, 0, [⟨7, ⟨.v4 0x0a000001, 1⟩, some 0, none, 0, true⟩,
      ⟨9, ⟨.v4 0x0a000009, 9⟩, none, some 0, 1, false⟩], 0⟩]⟩
    tokens := ⟨[], [], 0⟩, bootstrapped := true
    pending := AList.insert ([0, 0], ⟨.v4 0x0a000001, 1⟩) ⟨0, .ping none⟩ ∅ }

def listing (id : NodeId) (nodes : List CompactNode) : Datagram :=
  .message ⟨[0, 0], .response { id, nodes }⟩

/-- The node lists one that is new. -/
theorem packet_keeps_new : ∃ a',
    oneNode.onPacket (fun _ => 0) 5 ⟨.v4 0x0a000001, 1⟩ (listing 7 [⟨3, ⟨.v4 0x0a000003, 3⟩⟩]) = some a' ∧
      ∀ n ∈ a'.table.nodes, n.id ≠ 7 → n ∈ oneNode.table.nodes ∨
        (∀ m ∈ oneNode.table.nodes, m.id ≠ n.id) ∧ ∀ t, n.status t ≠ .good := by
  refine ⟨_, eq_some_get,
    packet_keeps _ oneNode _ 5 _ _ 7 rfl (fun tid r hr => ?_) (some_get _).symm⟩
  cases hr
  decide +kernel

/-- The node lists the other one we know, with an address of its own, and makes it good. -/
theorem listed_made_good : ∃ a' n,
    oneNode.onPacket (fun _ => 0) 5 ⟨.v4 0x0a000001, 1⟩ (listing 7 [⟨9, ⟨.v4 0x0a000001, 1⟩⟩]) = some a' ∧
      n ∈ a'.table.nodes ∧ n.id = 9 ∧ n.addr = ⟨.v4 0x0a000001, 1⟩ ∧ n.status 5 = .good ∧
      ∀ m ∈ oneNode.table.nodes, m.id = 9 → m.addr ≠ n.addr ∧ m.status 5 ≠ .good :=
  ⟨_, ⟨9, ⟨.v4 0x0a000001, 1⟩, some 5, some 0, 0, true⟩, eq_some_get,
    by decide +kernel, rfl, rfl, by decide, by decide⟩

end DhtActor

end BitRev.Dht
