import BitRev.Dht.Routing
import BitRev.Framework.Prefixes

/-!
# The buckets of the routing table

Whatever the table is told, its buckets' ranges partition the ids. Everything else the table keeps
is said of one bucket at a time (`Bucket.Sound`): a bucket is only filled, changed in place or, when
it is the one of our own id, split by the next bit. `split_covers` is the bit-level fact: an id of
the bucket is in one of the two halves, which one being told by that bit.

The loop of `insert` ends because each split makes the range of the new node's bucket one bit
longer, and a bucket of 160 bits is not split.
-/

namespace BitRev.Dht

open List Option

/-! ## Common prefixes -/

lemma le_matchingPrefixBits {p : Nat} {a b : NodeId} (hp : p ≤ 160) :
    p ≤ matchingPrefixBits a b ↔ Agree p a b := by
  unfold matchingPrefixBits
  split_ifs with h
  · subst h
    exact ⟨fun _ => Agree.refl p a, fun _ => hp⟩
  · have hne : (a ^^^ b).toNat ≠ 0 := by
      intro h0
      exact h (BitVec.xor_eq_zero_iff.1 (BitVec.eq_of_toNat_eq h0))
    have hlog : (a ^^^ b).toNat.log2 < 160 := (Nat.log2_lt hne).2 (a ^^^ b).isLt
    rw [agree_iff_xor_lt hp, ← Nat.log2_lt hne]
    unfold xorDistance
    omega

lemma matchingPrefixBits_eq {p : Nat} {a b : NodeId} (hp : p < 160) (h : Agree p a b)
    (hn : ¬ Agree (p + 1) a b) : matchingPrefixBits a b = p := by
  rw [← le_matchingPrefixBits (by omega)] at h hn
  omega

lemma getMsbD_mask {bit i : Nat} (hb : bit < 160) (hi : i < 160) :
    (BitVec.ofNat 160 (1 <<< (159 - bit))).getMsbD i = decide (i = bit) := by
  have hiff : 159 - bit = 160 - 1 - i ↔ i = bit := by omega
  have hlt : 160 - 1 - i < 160 := by omega
  rw [BitVec.getMsbD_eq_getLsbD, BitVec.getLsbD_ofNat, Nat.one_shiftLeft, Nat.testBit_two_pow]
  simp only [hi, hlt, hiff, decide_true, Bool.true_and]

lemma getMsbD_setBit {id : NodeId} {bit i : Nat} {v : Bool} (hb : bit < 160) (hi : i < 160) :
    (setBit id bit v).getMsbD i = if i = bit then v else id.getMsbD i := by
  have hmask := getMsbD_mask hb hi
  unfold setBit
  cases v <;> by_cases h : i = bit <;> simp_all

/-- Splitting a range by its next bit. -/
lemma agree_setBit {p : Nat} {bits id : NodeId} {v : Bool} (hp : p < 160) :
    Agree (p + 1) (setBit bits p v) id ↔ Agree p bits id ∧ id.getMsbD p = v := by
  have hlow : Agree p (setBit bits p v) bits := by
    intro i hi
    rw [getMsbD_setBit hp (by omega), if_neg (by omega)]
  rw [agree_succ, getMsbD_setBit hp hp, if_pos rfl]
  refine and_congr ⟨fun h => hlow.symm.trans h, fun h => hlow.trans h⟩ eq_comm

namespace Bucket

def range (b : Bucket) : Nat × NodeId := (b.prefixLen, b.bits)

def ids (b : Bucket) : List NodeId := b.nodes.map (·.id)

/-- The bucket up to what it knows of its nodes besides their ids. -/
def shape (b : Bucket) : (Nat × NodeId) × List NodeId := (b.range, b.ids)

lemma covers_iff {b : Bucket} {id : NodeId} (hp : b.prefixLen ≤ 160) :
    b.covers id ↔ Agree b.prefixLen b.bits id := by
  rw [covers, decide_eq_true_iff]
  exact le_matchingPrefixBits hp

lemma covers_congr {b b' : Bucket} (h : b'.range = b.range) (id : NodeId) :
    b'.covers id = b.covers id := by
  obtain ⟨hlen, hbits⟩ := Prod.mk.inj h
  simp only [covers, hlen, hbits]

structure Sound (own : NodeId) (b : Bucket) : Prop where
  short : b.prefixLen ≤ 160
  placed : ∀ id ∈ b.ids, b.covers id
  bounded : b.ids.length ≤ k
  distinct : b.ids.Nodup
  foreign : own ∉ b.ids
  /-- A bucket that is not ours branched off ours at its last bit. -/
  sibling : b.covers own = false → matchingPrefixBits b.bits own + 1 = b.prefixLen

variable {own : NodeId} {b b' : Bucket}

/-- Changing the nodes of a bucket. -/
lemma Sound.withIds (h : b.Sound own) (hr : b'.range = b.range)
    (hplaced : ∀ id ∈ b'.ids, b.covers id) (hbounded : b'.ids.length ≤ k)
    (hdistinct : b'.ids.Nodup) (hforeign : own ∉ b'.ids) : b'.Sound own := by
  obtain ⟨hlen, hbits⟩ := Prod.mk.inj hr
  refine ⟨hlen ▸ h.short, fun id hid => ?_, hbounded, hdistinct, hforeign, fun hc => ?_⟩
  · rw [covers_congr hr]
    exact hplaced id hid
  · rw [hbits, hlen]
    exact h.sibling (by rw [← covers_congr hr, hc])

lemma Sound.of_shape (h : b.Sound own) (hs : b'.shape = b.shape) : b'.Sound own := by
  obtain ⟨hr, hids⟩ := Prod.mk.inj hs
  exact h.withIds hr (hids ▸ h.placed) (hids ▸ h.bounded) (hids ▸ h.distinct) (hids ▸ h.foreign)

/-! ## Splitting -/

lemma split_covers (hp : b.prefixLen < 160) (now : Int) (id : NodeId) :
    ((b.split now).1.covers id ↔ b.covers id ∧ id.getMsbD b.prefixLen = false) ∧
    ((b.split now).2.covers id ↔ b.covers id ∧ id.getMsbD b.prefixLen) := by
  rw [covers_iff (b := (b.split now).1) hp, covers_iff (b := (b.split now).2) hp,
    covers_iff (le_of_lt hp)]
  exact ⟨agree_setBit hp, agree_setBit hp⟩

lemma split_count (hp : b.prefixLen < 160) (now : Int) (id : NodeId) :
    (if (b.split now).1.covers id then 1 else 0) + (if (b.split now).2.covers id then 1 else 0) =
      if b.covers id then 1 else 0 := by
  obtain ⟨hl, hr⟩ := split_covers hp now id
  cases hc : b.covers id <;> cases hbit : id.getMsbD b.prefixLen <;>
    simp only [hc, hbit, Bool.false_eq_true, and_false, and_true, Bool.true_eq_false,
      iff_false, iff_true, Bool.not_eq_true] at hl hr <;>
    simp [hl, hr]

lemma Sound.half (h : b.Sound own) (hown : b.covers own) (hp : b.prefixLen < 160) {v : Bool}
    (hr : b'.range = (b.prefixLen + 1, setBit b.bits b.prefixLen v)) (hsub : b'.ids.Sublist b.ids)
    (hplaced : ∀ id ∈ b'.ids, b'.covers id) : b'.Sound own := by
  obtain ⟨hlen, hbits⟩ := Prod.mk.inj hr
  refine ⟨by omega, hplaced, hsub.length_le.trans h.bounded, hsub.nodup h.distinct,
    fun hmem => h.foreign (hsub.subset hmem), fun hc => ?_⟩
  have hagree : Agree b.prefixLen b.bits own := (covers_iff h.short).1 hown
  have hnot : ¬ Agree (b.prefixLen + 1) b'.bits own := by
    rw [← hlen, ← covers_iff (by omega), hc]
    exact Bool.false_ne_true
  have hlow : Agree b.prefixLen b'.bits own := by
    refine Agree.trans (fun i hi => ?_) hagree
    rw [hbits, getMsbD_setBit hp (by omega), if_neg (by omega)]
  rw [matchingPrefixBits_eq hp hlow hnot, hlen]

lemma Sound.split (h : b.Sound own) (hown : b.covers own) (hp : b.prefixLen < 160)
    (now : Int) : (b.split now).1.Sound own ∧ (b.split now).2.Sound own := by
  constructor
  · refine h.half hown hp (v := false) rfl (filter_sublist.map _) fun id hid => ?_
    obtain ⟨n, hn, rfl⟩ := mem_map.1 hid
    exact (mem_filter.1 hn).2
  · refine h.half hown hp (v := true) rfl (filter_sublist.map _) fun id hid => ?_
    obtain ⟨n, hn, rfl⟩ := mem_map.1 hid
    obtain ⟨hmem, hleft⟩ := mem_filter.1 hn
    have hcov := h.placed n.id (mem_map_of_mem hmem)
    obtain ⟨hl, hr⟩ := split_covers hp now n.id
    refine hr.2 ⟨hcov, ?_⟩
    have hnl : ¬ (b.split now).1.covers n.id := by
      rw [Bool.not_eq_true]
      exact (Bool.not_eq_true' _).mp hleft
    simpa [hcov] using mt hl.2 hnl

end Bucket

/-! ## Changes in place -/

lemma modifyFirst_map {α β : Type} {p : α → Bool} {f : α → α} {key : α → β}
    (hf : ∀ a, key (f a) = key a) {l l' : List α} (h : modifyFirst p f l = some l') :
    l'.map key = l.map key := by
  obtain ⟨l₁, a, l₂, rfl, -, rfl⟩ := modifyFirst_some h
  simp only [map_append, map_cons, hf]

lemma modifyFirst_none {α : Type} {p : α → Bool} {f : α → α} {l : List α}
    (h : modifyFirst p f l = none) : ∀ a ∈ l, p a = false := by
  induction l with
  | nil => exact fun _ ha => absurd ha not_mem_nil
  | cons a l ih =>
    rw [modifyFirst] at h
    split_ifs at h with hp
    exact forall_mem_cons.2 ⟨Bool.eq_false_iff.2 hp, ih (map_eq_none_iff.1 h)⟩

namespace RoutingTable

variable {p : Node → Bool} {f : Node → Node} {bs : List Bucket} {i : Nat} {id : NodeId} {now : Int}

lemma modifyNode_shape (hf : ∀ n, (f n).id = n.id)
    {bs bs' : List Bucket} (h : modifyNode p f (fun b => b) bs = some bs') :
    bs'.map Bucket.shape = bs.map Bucket.shape := by
  induction bs generalizing bs' with
  | nil => cases h
  | cons b bs ih =>
    rw [modifyNode] at h
    split at h
    · rename_i nodes hn
      cases h
      have hids : nodes.map (·.id) = b.nodes.map (·.id) := modifyFirst_map hf hn
      simp only [map_cons, Bucket.shape, Bucket.range, Bucket.ids, hids]
    · obtain ⟨bs₁, hb, rfl⟩ := map_eq_some_iff.1 h
      simp only [map_cons, ih hb]

lemma modifyNode_none {g : Bucket → Bucket}
    (h : modifyNode p f g bs = none) : ∀ b ∈ bs, ∀ n ∈ b.nodes, p n = false := by
  induction bs with
  | nil => exact fun _ hb => absurd hb not_mem_nil
  | cons b bs ih =>
    rw [modifyNode] at h
    split at h
    · cases h
    · rename_i hn
      exact forall_mem_cons.2 ⟨modifyFirst_none hn, ih (map_eq_none_iff.1 h)⟩

/-! ## The table -/

/-- The ranges partition the ids and each bucket is as it should be. -/
structure Sound (t : RoutingTable) : Prop where
  partition : ∀ id, t.buckets.countP (·.covers id) = 1
  buckets : ∀ b ∈ t.buckets, b.Sound t.id

variable {t : RoutingTable}

lemma new_sound (id : NodeId) (now : Int) : (new id now).Sound := by
  have hcov (id' : NodeId) : (Bucket.mk 0 0 [] now).covers id' :=
    (Bucket.covers_iff (Nat.zero_le 160)).2 (agree_zero _ _)
  refine ⟨fun id' => ?_, fun b hb => ?_⟩
  · rw [new, countP_singleton, if_pos (hcov id')]
  · obtain rfl := mem_singleton.1 hb
    refine ⟨Nat.zero_le 160, fun id' _ => hcov id', Nat.zero_le k, nodup_nil,
      not_mem_nil, fun h => ?_⟩
    rw [hcov] at h
    cases h

section

variable (h : t.Sound)
include h

/-- Changes that keep the ranges. -/
lemma Sound.of_range (hr : bs.map Bucket.range = t.buckets.map Bucket.range)
    (hb : ∀ b ∈ bs, b.Sound t.id) : ({ t with buckets := bs } : RoutingTable).Sound := by
  refine ⟨fun id => ?_, hb⟩
  have hcount (l : List Bucket) : l.countP (·.covers id) =
      (l.map Bucket.range).countP fun r => decide (r.1 ≤ matchingPrefixBits r.2 id) := by
    rw [countP_map]
    rfl
  rw [← h.partition id, hcount, hcount t.buckets, hr]

/-- Changes that keep the ranges and the ids. -/
lemma Sound.of_shape (hs : bs.map Bucket.shape = t.buckets.map Bucket.shape) :
    ({ t with buckets := bs } : RoutingTable).Sound := by
  refine h.of_range ?_ fun b hb => ?_
  · have := congrArg (map Prod.fst) hs
    rwa [List.map_map, List.map_map] at this
  · have hmem : b.shape ∈ t.buckets.map Bucket.shape := hs ▸ mem_map_of_mem hb
    obtain ⟨b₀, hb₀, heq⟩ := mem_map.1 hmem
    exact (h.buckets b₀ hb₀).of_shape heq.symm

lemma Sound.modifyNode (hm : RoutingTable.modifyNode p f (fun b => b) t.buckets = some bs)
    (hf : ∀ n, (f n).id = n.id) : ({ t with buckets := bs } : RoutingTable).Sound :=
  h.of_shape (modifyNode_shape hf hm)

lemma Sound.modifyNode_getD (hf : ∀ n, (f n).id = n.id) :
    ({ t with
      buckets := (RoutingTable.modifyNode p f (fun b => b) t.buckets).getD t.buckets } :
        RoutingTable).Sound := by
  cases hm : RoutingTable.modifyNode p f (fun b => b) t.buckets with
  | none => exact h
  | some bs => exact h.modifyNode hm hf

lemma Sound.set {b b' : Bucket} (hb : t.buckets[i]? = some b) (hr : b'.range = b.range)
    (hb' : b'.Sound t.id) : ({ t with buckets := t.buckets.set i b' } : RoutingTable).Sound := by
  refine h.of_range ?_ fun c hc => ?_
  · obtain ⟨hi, rfl⟩ := List.getElem?_eq_some_iff.1 hb
    rw [map_set, hr, ← getElem_map Bucket.range (h := by simpa using hi),
      set_getElem_self]
  · rcases mem_or_eq_of_mem_set hc with hc | rfl
    · exact h.buckets c hc
    · exact hb'

lemma Sound.bucketIndex (id : NodeId) :
    ∃ i b, t.bucketIndex id = some i ∧ t.buckets[i]? = some b ∧ b.covers id := by
  have hpos : 0 < t.buckets.countP (·.covers id) := by
    rw [h.partition id]
    exact one_pos
  obtain ⟨b, hb, hc⟩ := countP_pos_iff.1 hpos
  cases hi : t.buckets.findIdx? (·.covers id) with
  | none => exact absurd hc (by simp [findIdx?_eq_none_iff.1 hi b hb])
  | some i =>
    obtain ⟨hlt, hcov, _⟩ := findIdx?_eq_some_iff_getElem.1 hi
    exact ⟨i, t.buckets[i], hi, getElem?_eq_getElem hlt, hcov⟩

lemma Sound.unique {b b' : Bucket} (hb : b ∈ t.buckets) (hb' : b' ∈ t.buckets)
    (hc : b.covers id) (hc' : b'.covers id) : b = b' := by
  have hone := h.partition id
  rw [countP_eq_length_filter] at hone
  obtain ⟨a, ha⟩ := length_eq_one_iff.1 hone
  have hmem {c : Bucket} (hcm : c ∈ t.buckets) (hcc : c.covers id) : c = a := by
    have : c ∈ t.buckets.filter (·.covers id) := mem_filter.2 ⟨hcm, hcc⟩
    rw [ha] at this
    exact mem_singleton.1 this
  rw [hmem hb hc, hmem hb' hc']

lemma Sound.touchBucket (id : NodeId) (now : Int) :
    ∃ t', t.touchBucket id now = some t' ∧ t'.Sound := by
  obtain ⟨i, b, hi, hb, _⟩ := h.bucketIndex id
  refine ⟨_, by rw [RoutingTable.touchBucket, hi]; rfl, h.of_shape ?_⟩
  apply ext_getElem?
  intro j
  simp only [getElem?_map, getElem?_modify]
  cases t.buckets[j]? with
  | none => rfl
  | some c => split <;> rfl

lemma Sound.split {b : Bucket} (hb : t.buckets[i]? = some b) (hown : b.covers t.id)
    (hp : b.prefixLen < 160) (now : Int) :
    ({ t with
      buckets := t.buckets.take i ++ (b.split now).1 :: (b.split now).2 ::
        t.buckets.drop (i + 1) } : RoutingTable).Sound := by
  obtain ⟨hi, hbi⟩ := List.getElem?_eq_some_iff.1 hb
  have hmem : b ∈ t.buckets := mem_of_getElem? hb
  have hcut : t.buckets = t.buckets.take i ++ b :: t.buckets.drop (i + 1) := by
    rw [← hbi, cons_getElem_drop_succ, take_append_drop]
  constructor
  · intro id
    have hone := h.partition id
    rw [hcut] at hone
    have hhalves := Bucket.split_count hp now id
    simp only [countP_append, countP_cons] at hone ⊢
    omega
  · obtain ⟨hl, hr⟩ := (h.buckets b hmem).split hown hp now
    exact forall_mem_append.2 ⟨fun c hc => h.buckets c (mem_of_mem_take hc), forall_mem_cons.2
      ⟨hl, forall_mem_cons.2 ⟨hr, fun c hc => h.buckets c (mem_of_mem_drop hc)⟩⟩⟩

/-! ## The loop of `insert` -/

/-- A bucket that gets the new node: `b'` has it besides nodes of `b`. -/
lemma Sound.put {b : Bucket} (hb : t.buckets[i]? = some b) {node : CompactNode}
    (hc : b.covers node.id) (hown : node.id ≠ t.id)
    (hfresh : ∀ b ∈ t.buckets, node.id ∉ b.ids) {nodes : List Node} (old : List NodeId)
    (hids : (nodes.map (·.id)).Perm (node.id :: old)) (hold : old.Sublist b.ids)
    (hlen : nodes.length ≤ k) :
    ({ t with buckets := t.buckets.set i { b with nodes, lastChanged := now } } :
      RoutingTable).Sound := by
  have hmem : b ∈ t.buckets := mem_of_getElem? hb
  have hs := h.buckets b hmem
  refine h.set hb rfl (hs.withIds rfl (fun id hid => ?_) ?_ ?_ fun hid => ?_)
  · rcases mem_cons.1 (hids.subset hid) with rfl | hid
    · exact hc
    · exact hs.placed id (hold.subset hid)
  · rw [Bucket.ids, length_map]
    exact hlen
  · exact hids.nodup_iff.2
      (nodup_cons.2 ⟨fun hid => hfresh b hmem (hold.subset hid), hold.nodup hs.distinct⟩)
  · rcases mem_cons.1 (hids.subset hid) with heq | hid
    · exact hown heq.symm
    · exact hs.foreign (hold.subset hid)

end

lemma fresh_split {b : Bucket} (hb : t.buckets[i]? = some b)
    (hfresh : ∀ b ∈ t.buckets, id ∉ b.ids) :
    ∀ c ∈ t.buckets.take i ++ (b.split now).1 :: (b.split now).2 :: t.buckets.drop (i + 1),
      id ∉ c.ids := by
  have hb := hfresh b (mem_of_getElem? hb)
  exact forall_mem_append.2 ⟨fun c hc => hfresh c (mem_of_mem_take hc), forall_mem_cons.2
    ⟨fun hid => hb ((filter_sublist.map _).subset hid), forall_mem_cons.2
      ⟨fun hid => hb ((filter_sublist.map _).subset hid),
        fun c hc => hfresh c (mem_of_mem_drop hc)⟩⟩⟩

lemma Sound.insertLoop {node : CompactNode} (h : t.Sound) (hown : node.id ≠ t.id)
    (hfresh : ∀ b ∈ t.buckets, node.id ∉ b.ids) {fuel : Nat}
    (hfuel : ∀ b ∈ t.buckets, b.covers node.id → 161 ≤ b.prefixLen + fuel) :
    ∃ r, t.insertLoop node now fuel = some r ∧ r.1.Sound := by
  -- every turn that does not return makes the prefix of the node's bucket longer
  induction fuel generalizing t with
  | zero =>
    obtain ⟨i, b, _, hb, hc⟩ := h.bucketIndex node.id
    have hmem := mem_of_getElem? hb
    have := hfuel b hmem hc
    have := (h.buckets b hmem).short
    omega
  | succ fuel ih =>
    obtain ⟨i, b, hi, hb, hc⟩ := h.bucketIndex node.id
    have hmem := mem_of_getElem? hb
    have hs := h.buckets b hmem
    simp only [RoutingTable.insertLoop, hi, hb, bind_some]
    split
    · rename_i hlt
      refine ⟨_, rfl, h.put hb hc hown hfresh b.ids ?_ (List.Sublist.refl _) ?_⟩
      · rw [map_append]
        exact perm_append_singleton _ _
      · rw [length_append]
        exact hlt
    · split_ifs with hsplit
      · obtain ⟨hcown, hp⟩ := Bool.and_eq_true_iff.1 hsplit
        have hp := of_decide_eq_true hp
        have hsound := h.split hb hcown hp now
        refine ih hsound hown (fresh_split hb hfresh) fun c hcm hcc => ?_
        have hlong := hfuel b hmem hc
        -- the node is in one of the two halves
        suffices c.prefixLen = b.prefixLen + 1 by omega
        obtain ⟨hl, hr⟩ := Bucket.split_covers hp now node.id
        cases hbit : node.id.getMsbD b.prefixLen with
        | false =>
          rw [hsound.unique hcm (by simp) hcc (hl.2 ⟨hc, hbit⟩)]
          rfl
        | true =>
          rw [hsound.unique hcm (by simp) hcc (hr.2 ⟨hc, hbit⟩)]
          rfl
      · split
        · rename_i nodes hn
          obtain ⟨l₁, a, l₂, hl, -, rfl⟩ := modifyFirst_some hn
          refine ⟨_, rfl, h.put hb hc hown hfresh ((l₁ ++ l₂).map (·.id)) ?_ ?_ ?_⟩
          · exact List.Perm.map (fun x : Node => x.id) perm_middle
          · rw [Bucket.ids, hl]
            exact ((sublist_cons_self a l₂).append_left l₁).map _
          · have := hs.bounded
            rw [Bucket.ids, length_map, hl] at this
            simpa using this
        · split
          · exact ⟨_, rfl, h⟩
          · exact ⟨_, rfl, h⟩

/-! ## The operations -/

lemma fresh_of_none {g : Bucket → Bucket}
    (h : RoutingTable.modifyNode (·.id = id) f g bs = none) : ∀ b ∈ bs, id ∉ b.ids := by
  intro b hb hid
  obtain ⟨n, hn, heq⟩ := mem_map.1 hid
  exact of_decide_eq_false (modifyNode_none h b hb n hn) heq

lemma Sound.insert (h : t.Sound) (node : CompactNode) (now : Int) :
    ∃ r, t.insert node now = some r ∧ r.1.Sound := by
  rw [RoutingTable.insert]
  split
  · exact ⟨_, rfl, h⟩
  · rename_i hown
    split
    · exact ⟨_, rfl, h⟩
    · split
      · rename_i bs hm
        obtain ⟨t', ht, hs⟩ := (h.modifyNode hm fun _ => rfl).touchBucket node.id now
        exact ⟨(t', .updated), by rw [ht]; rfl, hs⟩
      · rename_i hm
        exact h.insertLoop hown (fresh_of_none hm) fun b _ _ => Nat.le_add_left _ _

lemma Sound.seenQuery (h : t.Sound) (id : NodeId) (addr : SocketAddr) (now : Int) :
    ∃ t', t.seenQuery id addr now = some t' ∧ t'.Sound := by
  rw [RoutingTable.seenQuery]
  split
  · rename_i bs hm
    exact ⟨_, rfl, h.modifyNode hm fun _ => rfl⟩
  · obtain ⟨r, hr, hs⟩ := h.insert ⟨id, addr⟩ now
    exact ⟨r.1, by rw [hr]; rfl, hs⟩

lemma Sound.seenResponse (h : t.Sound) (id : NodeId) (addr : SocketAddr) (now : Int) :
    ∃ t', t.seenResponse id addr now = some t' ∧ t'.Sound := by
  rw [RoutingTable.seenResponse]
  split
  · rename_i bs hm
    exact (h.modifyNode hm fun _ => rfl).touchBucket id now
  · obtain ⟨r, hr, hs⟩ := h.insert ⟨id, addr⟩ now
    rw [hr]
    exact ⟨_, rfl, hs.modifyNode_getD fun _ => rfl⟩

lemma Sound.loadNode (h : t.Sound) (now : Int) (node : CompactNode) :
    ∃ t', t.loadNode now node = some t' ∧ t'.Sound := by
  rw [RoutingTable.loadNode]
  split
  · rename_i bs hm
    exact ⟨_, rfl, h.modifyNode hm fun _ => rfl⟩
  · obtain ⟨r, hr, hs⟩ := h.insert node now
    rw [hr]
    exact ⟨_, rfl, hs.modifyNode_getD fun _ => rfl⟩

/-- What each step keeps and always does, a whole sequence of steps keeps and does. -/
lemma Sound.foldlM {α : Type} {f : RoutingTable → α → Option RoutingTable}
    (hf : ∀ {t}, t.Sound → ∀ a, ∃ t', f t a = some t' ∧ t'.Sound) (h : t.Sound) (as : List α) :
    ∃ t', as.foldlM f t = some t' ∧ t'.Sound := by
  induction as generalizing t with
  | nil => exact ⟨t, rfl, h⟩
  | cons a as ih =>
    obtain ⟨t₁, ht, hs⟩ := hf h a
    rw [foldlM_cons, ht]
    exact ih hs

lemma load_sound (dat : Option DhtDat) (now : Int) :
    ∃ r, load dat now = some r ∧ ∀ t ∈ r, t.Sound := by
  cases dat with
  | none => exact ⟨none, rfl, fun _ h => by cases h⟩
  | some dat =>
    rw [load]
    split
    · obtain ⟨t, ht, hs⟩ := (new_sound (.ofBytes dat.id) now).foldlM
        (fun h => h.loadNode now) (decodeCompactNodes dat.nodes)
      exact ⟨some t, by rw [ht]; rfl, fun t' h => by cases h; exact hs⟩
    · exact ⟨none, rfl, fun _ h => by cases h⟩

inductive Op where
  | insert (node : CompactNode) (now : Int)
  | seenQuery (id : NodeId) (addr : SocketAddr) (now : Int)
  | seenResponse (id : NodeId) (addr : SocketAddr) (now : Int)
  | timedOut (addr : SocketAddr)
  | load (dat : Option DhtDat) (now : Int)

/-- An operation on the table; `none` is a panic or a loop that has not ended. A table that can be
loaded takes the place of the one there is. -/
def step (t : RoutingTable) : Op → Option RoutingTable
  | .insert node now => (t.insert node now).map (·.1)
  | .seenQuery id addr now => t.seenQuery id addr now
  | .seenResponse id addr now => t.seenResponse id addr now
  | .timedOut addr => some (t.timedOut addr)
  | .load dat now => (RoutingTable.load dat now).map (·.getD t)

lemma Sound.step (h : t.Sound) (op : Op) : ∃ t', t.step op = some t' ∧ t'.Sound := by
  cases op with
  | insert node now =>
    obtain ⟨r, hr, hs⟩ := h.insert node now
    exact ⟨r.1, by rw [RoutingTable.step, hr]; rfl, hs⟩
  | seenQuery id addr now => exact h.seenQuery id addr now
  | seenResponse id addr now => exact h.seenResponse id addr now
  | timedOut addr => exact ⟨_, rfl, h.modifyNode_getD fun _ => rfl⟩
  | load dat now =>
    obtain ⟨r, hr, hs⟩ := load_sound dat now
    refine ⟨r.getD t, by rw [RoutingTable.step, hr]; rfl, ?_⟩
    cases r with
    | none => exact h
    | some t' => exact hs t' rfl

/-! ## The whole table -/

/-- What the table promises, read off all of it. -/
structure WellFormed (t : RoutingTable) : Prop where
  /-- Every id is in the range of one bucket. -/
  partition : ∀ id, t.buckets.countP (·.covers id) = 1
  placed : ∀ b ∈ t.buckets, ∀ n ∈ b.nodes, b.covers n.id
  bounded : ∀ b ∈ t.buckets, b.nodes.length ≤ k
  distinct : (t.nodes.map (·.id)).Nodup
  foreign : ∀ n ∈ t.nodes, n.id ≠ t.id
  siblings : ∀ b ∈ t.buckets, b.covers t.id = false →
    matchingPrefixBits b.bits t.id + 1 = b.prefixLen

lemma nodup_of_buckets (hone : ∀ id, bs.countP (·.covers id) ≤ 1)
    (hplaced : ∀ b ∈ bs, ∀ id ∈ b.ids, b.covers id) (hd : ∀ b ∈ bs, b.ids.Nodup) :
    (bs.flatMap Bucket.ids).Nodup := by
  induction bs with
  | nil => exact nodup_nil
  | cons b bs ih =>
    have hle (id : NodeId) : bs.countP (·.covers id) ≤ 1 :=
      (List.Sublist.countP_le (sublist_cons_self b bs)).trans (hone id)
    rw [flatMap_cons, nodup_append]
    refine ⟨hd b mem_cons_self, ih hle (fun c hc => hplaced c (mem_cons_of_mem _ hc)) fun c hc => hd
      c (mem_cons_of_mem _ hc), ?_⟩
    rintro id hid id' hid' rfl
    obtain ⟨c, hc, hidc⟩ := mem_flatMap.1 hid'
    have hpos : 0 < bs.countP (·.covers id) :=
      countP_pos_iff.2 ⟨c, hc, hplaced c (mem_cons_of_mem _ hc) id hidc⟩
    have := hone id
    rw [countP_cons, if_pos (hplaced b mem_cons_self id hid)] at this
    omega

lemma Sound.wellFormed (h : t.Sound) : t.WellFormed := by
  have hids : t.nodes.map (·.id) = t.buckets.flatMap Bucket.ids := map_flatMap
  refine ⟨h.partition, fun b hb n hn => (h.buckets b hb).placed n.id (mem_map_of_mem hn),
    fun b hb => ?_, ?_, fun n hn heq => ?_, fun b hb => (h.buckets b hb).sibling⟩
  · have := (h.buckets b hb).bounded
    rwa [Bucket.ids, length_map] at this
  · rw [hids]
    exact nodup_of_buckets (fun id => (h.partition id).le) (fun b hb => (h.buckets b hb).placed)
      fun b hb => (h.buckets b hb).distinct
  · obtain ⟨b, hb, hnb⟩ := mem_flatMap.1 hn
    exact (h.buckets b hb).foreign (heq ▸ mem_map_of_mem hnb)

/-- Any sequence of operations on an empty table comes to its end, no matter the ids, addresses and
times, and leaves a well-formed table. -/
theorem operations_wellFormed (own : NodeId) (now : Int) (ops : List Op) :
    ∃ t, ops.foldlM step (new own now) = some t ∧ t.WellFormed := by
  obtain ⟨t, ht, hs⟩ := (new_sound own now).foldlM Sound.step ops
  exact ⟨t, ht, hs.wellFormed⟩

end RoutingTable

end BitRev.Dht
