import BitRev.Dht.Moves

/-!
# How many buckets are refreshed at once

A bucket that has had no contact for a while is refreshed by a `find_node` lookup, started at a tick.
Each tick starts one for every bucket that is due, and a bucket stays due until a node of it answers.

* `weight_moves`: nothing but the refreshing of buckets adds to the `find_node` lookups, apart from
  the one for our own id.
* `refresh_bounded`: there is at most one for each bucket and one more, if no bucket is due at a tick
  while such a lookup runs.
-/

namespace BitRev.Dht

open List

def findNodes (lookups : AList fun _ : Nat => Lookup) : Nat :=
  lookups.entries.countP fun x => x.2.kind = .findNode

/-- No bucket needs a refresh. -/
def RoutingTable.NoneDue (t : RoutingTable) (now : Int) : Prop :=
  ∀ b ∈ t.buckets, b.isStale now → b.nodes = []

instance (t : RoutingTable) (now : Int) : Decidable (t.NoneDue now) :=
  inferInstanceAs (Decidable (∀ b ∈ t.buckets, b.isStale now → b.nodes = []))

/-- The lookup for our own id counts before it is started. -/
def Core.weight (c : Core) : Nat := findNodes c.lookups + if c.bootstrapped then 0 else 1

section

variable {lookups : AList fun _ : Nat => Lookup} {id : Nat} {l l' : Lookup}

lemma findNodes_erase_le (lookups : AList fun _ : Nat => Lookup) (id : Nat) :
    findNodes (lookups.erase id) ≤ findNodes lookups :=
  (kerase_sublist id lookups.entries).countP_le

lemma findNodes_insert_le (lookups : AList fun _ : Nat => Lookup) (id : Nat) (l : Lookup) :
    findNodes (lookups.insert id l) ≤ findNodes lookups + if l.kind = .findNode then 1 else 0 := by
  rw [findNodes, Assoc.countP_insert]
  have := findNodes_erase_le lookups id
  simp only [findNodes, decide_eq_true_eq] at this ⊢
  omega

lemma findNodes_ask (hl : lookups.lookup id = some l) (hk : l'.kind = l.kind) :
    findNodes (lookups.insert id l') = findNodes lookups := by
  rw [findNodes, Assoc.countP_insert, findNodes, ← Assoc.countP_erase _ hl]
  simp only [hk]

end

lemma weight_move {c c' : Core} (h : Move True (fun kind _ => kind = .getPeers) c c') :
    c'.weight ≤ c.weight ∧ c.table.buckets.length ≤ c'.table.buckets.length := by
  unfold Core.weight
  cases h with
  | table t _ hlen => exact ⟨le_rfl, hlen⟩
  | ask hl hk => exact ⟨le_of_eq (by rw [findNodes_ask hl hk.2]), le_rfl⟩
  | drop => exact ⟨Nat.add_le_add_right (findNodes_erase_le ..) _, le_rfl⟩
  | findSelf seeds hb =>
    have hle := findNodes_insert_le c.lookups c.nextLookup (.new c.table.id .findNode seeds)
    rw [(Lookup.new_target ..).2, if_pos rfl] at hle
    exact ⟨by simpa [Core.start, hb] using hle, le_rfl⟩
  | start seeds hk =>
    rename_i kind target
    have hle := findNodes_insert_le c.lookups c.nextLookup (.new target kind seeds)
    rw [(Lookup.new_target ..).2, hk, if_neg nofun] at hle
    exact ⟨Nat.add_le_add_right (by rw [hk]; exact hle) _, le_rfl⟩
  | torrent | forget | send => exact ⟨le_rfl, le_rfl⟩

variable {a a' : DhtActor} {now : Int} {sha1 : Bytes → Digest}

lemma weight_moves (h : Moves True (fun kind _ => kind = .getPeers) a a') :
    a'.core.weight ≤ a.core.weight ∧ a.table.buckets.length ≤ a'.table.buckets.length :=
  Moves.inv (I := fun c => c.weight ≤ a.core.weight ∧
      a.table.buckets.length ≤ c.table.buckets.length)
    (fun _ _ hc hm => ⟨(weight_move hm).1.trans hc.1, hc.2.trans (weight_move hm).2⟩) h
    ⟨le_rfl, le_rfl⟩

/-! ## The tick -/

namespace RoutingTable

lemma modifyNode_noneDue {p : Node → Bool} {f : Node → Node} {g : Bucket → Bucket}
    (hg : ∀ b, (g b).isStale now → b.isStale now) {bs : List Bucket}
    (h : ∀ b ∈ bs, b.isStale now → b.nodes = []) :
    ∀ b ∈ (modifyNode p f g bs).getD bs, b.isStale now → b.nodes = [] := by
  induction bs with
  | nil => exact h
  | cons b bs ih =>
    obtain ⟨hb, hbs⟩ := forall_mem_cons.1 h
    have ih := ih hbs
    rw [modifyNode]
    cases hm : modifyFirst p f b.nodes with
    | some nodes =>
      refine forall_mem_cons.2 ⟨fun hs => ?_, hbs⟩
      rw [hb (hg { b with nodes } hs)] at hm
      cases hm
    | none =>
      cases hr : modifyNode p f g bs with
      | none => exact h
      | some bs' =>
        rw [hr] at ih
        exact forall_mem_cons.2 ⟨hb, ih⟩

lemma NoneDue.replace {t : RoutingTable} (h : t.NoneDue now) (old : SocketAddr)
    (new : CompactNode) : (t.replace old new now).NoneDue now := by
  refine modifyNode_noneDue (fun b hs => ?_) h
  -- A bucket that is touched is not stale.
  simp [Bucket.isStale, since, nodeTimeout] at hs

lemma NoneDue.staleBuckets {t : RoutingTable} (h : t.NoneDue now) (rnd : Nat → NodeId) :
    t.staleBuckets now rnd = [] := by
  have hnone : (t.buckets.filter fun b => b.isStale now && !b.nodes.isEmpty) = [] := by
    refine filter_eq_nil_iff.2 fun b hb hd => ?_
    rw [Bool.and_eq_true] at hd
    simp [h b hb hd.1] at hd
  simp [RoutingTable.staleBuckets, hnone]

end RoutingTable

namespace DhtActor

lemma tickStart_noneDue (e : DhtEnv) (h : a.table.NoneDue e.now) :
    (a.tickStart e).table.NoneDue e.now := by
  have hone : ∀ (b : DhtActor) (key : Bytes × SocketAddr), b.table.NoneDue e.now →
      (b.expireOne e.now key).table.NoneDue e.now := by
    intro b key hb
    have htimed : (b.table.timedOut key.2).NoneDue e.now :=
      RoutingTable.modifyNode_noneDue (fun _ => id) hb
    unfold expireOne
    split
    · exact hb
    dsimp only
    split
    · exact htimed.replace _ _
    · unfold lookupTimeout
      split <;> exact htimed
    · exact htimed
  have hexp : ({ a with tokens := a.tokens.maybeRotate e.now e.secret }.expirePending
      e.now).table.NoneDue e.now :=
    foldlRecOn (motive := fun b : DhtActor => b.table.NoneDue e.now) _ _ h fun b hb key _ =>
      hone b key hb
  unfold tickStart
  dsimp only
  split
  · unfold startFindSelf
    split <;> exact hexp
  · exact hexp

lemma refreshBuckets_weight (e : DhtEnv) :
    (a.refreshBuckets e).core.weight ≤
        a.core.weight + (a.table.staleBuckets e.now e.ids).length ∧
      (a.refreshBuckets e).table = a.table := by
  suffices ∀ (targets : List NodeId) (b : DhtActor), (targets.foldl
      (fun a target => a.startLookup target .findNode (a.table.closest target k)) b).core.weight ≤
      b.core.weight + targets.length ∧ (targets.foldl (fun a target => a.startLookup target
      .findNode (a.table.closest target k)) b).table = b.table from this _ a
  intro targets
  induction targets with
  | nil => exact fun _ => ⟨le_rfl, rfl⟩
  | cons target targets ih =>
    intro b
    obtain ⟨hw, ht⟩ := ih (b.startLookup target .findNode (b.table.closest target k))
    refine ⟨?_, ht⟩
    have hle := findNodes_insert_le b.lookups b.nextLookup
      (.new target .findNode (b.table.closest target k))
    rw [(Lookup.new_target ..).2, if_pos rfl] at hle
    simp only [foldl_cons, length_cons]
    have hone : (b.startLookup target .findNode (b.table.closest target k)).core.weight ≤
        b.core.weight + 1 := by
      have := Nat.add_le_add_right hle (if b.bootstrapped then 0 else 1)
      exact Nat.le_trans this (Nat.le_of_eq (Nat.add_right_comm ..))
    omega

lemma staleBuckets_length (t : RoutingTable) (now : Int) (rnd : Nat → NodeId) :
    (t.staleBuckets now rnd).length ≤ t.buckets.length := by
  simp only [RoutingTable.staleBuckets, length_map, length_zipIdx]
  exact length_filter_le ..

/-- What a step may find: at a tick, no `find_node` lookup runs or no bucket is due. -/
def Rested (a : DhtActor) : DhtEnv × ActorAct → Prop
  | (e, .tick) => findNodes a.lookups = 0 ∨ a.table.NoneDue e.now
  | _ => True

instance (a : DhtActor) : ∀ act, Decidable (Rested a act)
  | (_, act) => by rcases act <;> unfold Rested <;> infer_instance

lemma weight_step {act : DhtEnv × ActorAct}
    (hw : a.core.weight ≤ a.table.buckets.length + 1) (hok : Rested a act)
    (h : a.step sha1 act = some a') : a'.core.weight ≤ a'.table.buckets.length + 1 := by
  obtain ⟨e, act⟩ := act
  have hmoves : Moves True (fun kind _ => kind = .getPeers) a a' →
      a'.core.weight ≤ a'.table.buckets.length + 1 := fun hm => by
    have := weight_moves hm
    omega
  cases act with
  | command cmd =>
    cases h
    exact hmoves (handleCmd_moves (fun _ _ => rfl) fun _ _ => rfl)
  | pingNode addr =>
    cases h
    exact hw
  | packet src d => exact hmoves (onPacket_moves h)
  | tick =>
    cases h
    have hstart := weight_moves (tickStart_moves (a := a) e)
    obtain ⟨hrefresh, htable⟩ := refreshBuckets_weight (a := a.tickStart e) e
    have hrest : Moves True (fun kind _ => kind = .getPeers) ((a.tickStart e).refreshBuckets e)
        (a.tick e) :=
      (reannounce_moves fun _ _ => rfl).trans kickLookups_moves
    have hend := weight_moves hrest
    rw [htable] at hend
    have hstale := staleBuckets_length (a.tickStart e).table e.now e.ids
    rcases hok with hzero | hnone
    · have : a.core.weight ≤ 1 := by
        rw [Core.weight, show a.core.lookups = a.lookups from rfl, hzero]
        split <;> omega
      omega
    · rw [(tickStart_noneDue e hnone).staleBuckets] at hrefresh
      simp only [length_nil] at hrefresh
      omega

/-- Of a run in which no bucket is due at a tick while a `find_node` lookup runs: there are never more
such lookups than buckets, and one. -/
theorem refresh_bounded (sha1 : Bytes → Digest) (table : RoutingTable) (tokens : TokenSecrets)
    (now : Int) (nodes : List SocketAddr) (acts : List (DhtEnv × ActorAct)) (a : DhtActor)
    (hrun : Run (step sha1) Rested (({ table, tokens } : DhtActor).bootstrap now nodes) acts a) :
    findNodes a.lookups ≤ a.table.buckets.length + 1 := by
  have hnew := weight_moves (@bootstrap_moves _ _ now { table, tokens } nodes)
  have hinit : ({ table, tokens } : DhtActor).core.weight = 1 := rfl
  have hw := hrun.inv (I := fun a => a.core.weight ≤ a.table.buckets.length + 1)
    (fun hw hok h => weight_step hw hok h) (by omega)
  exact le_trans (Nat.le_add_right _ _) hw

/-- An actor that knows of no node. -/
def newActor : DhtActor :=
  ({ table := .new 0 0, tokens := ⟨[], [], 0⟩ } : DhtActor).bootstrap 0 []

def lonelyNode (ticks : List Int) : List (DhtEnv × ActorAct) :=
  ({}, .packet ⟨.v4 0x0a000001, 6881⟩ (.message ⟨[], .query (.ping 7)⟩)) ::
    ticks.map fun now => ({ now }, .tick)

/-- At the first tick the bucket of the node is refreshed, and our own id looked up. -/
theorem refresh_bounded_first : ∃ a,
    Run (step fun _ => 0) Rested newActor (lonelyNode [nodeTimeout]) a ∧
      findNodes a.lookups ≤ a.table.buckets.length + 1 :=
  have h := Run.of_isSome
  ⟨_, h, refresh_bounded (fun _ => 0) (.new 0 0) ⟨[], [], 0⟩ 0 [] _ _ h⟩

/-- The node does not answer, and every tick starts another lookup for its bucket. -/
theorem refresh_repeated : ∃ a,
    Run (step fun _ => 0) anyStep newActor
        (lonelyNode [nodeTimeout, nodeTimeout + 500, nodeTimeout + 1000]) a ∧
      findNodes a.lookups = 4 ∧ a.table.buckets.length = 1 :=
  ⟨_, .of_isSome, by decide +kernel, by decide +kernel⟩

end DhtActor

end BitRev.Dht
