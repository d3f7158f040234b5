import BitRev.Dht.Lookup
import BitRev.Framework.Assoc
import BitRev.Framework.Run

/-!
# Where a lookup ends

A lookup by itself, as `dht/mod.rs` drives it: it hands out queries, and each of them is answered or
times out. `Search.done_closest` says which contacts it can be done without having asked.
-/

namespace BitRev.Dht

open List Option

inductive LookupAct where
  | next
  | response (src : SocketAddr) (id : NodeId) (r : Response)
  | timeout (src : SocketAddr)

/-- A lookup, the contacts it has asked and those it waits for. -/
structure Search where
  lookup : Lookup
  asked : List SocketAddr := []
  waiting : List SocketAddr := []

namespace Search

def step (s : Search) : LookupAct → Option Search
  | .next =>
    let addrs := s.lookup.nextQueries.2.map (·.addr)
    some ⟨s.lookup.nextQueries.1, s.asked ++ addrs, s.waiting ++ addrs⟩
  | .response src id r =>
    if src ∈ s.waiting then
      some { s with lookup := (s.lookup.onResponse src id r).1, waiting := s.waiting.erase src }
    else none
  | .timeout src =>
    if src ∈ s.waiting then
      some { s with lookup := s.lookup.onTimeout src, waiting := s.waiting.erase src }
    else none

/-- A contact stands under its address, and is only unknown if it was not asked. -/
def Traced (l : Lookup) (asked : List SocketAddr) : Prop :=
  ∀ addr c, l.contacts.lookup addr = some c →
    c.node.addr = addr ∧ (c.state ≠ .unknown → addr ∈ asked)

structure Inv (s : Search) : Prop where
  traced : Traced s.lookup s.asked
  waiting : s.waiting ⊆ s.asked

variable {l : Lookup} {asked : List SocketAddr} {c : Contact}

lemma Traced.insert (h : Traced l asked) {addr : SocketAddr}
    (haddr : c.node.addr = addr) (hc : c.state ≠ .unknown → addr ∈ asked) {seenIds : List NodeId} :
    Traced { l with contacts := l.contacts.insert addr c, seenIds } asked := by
  intro addr' c' hc'
  rcases Assoc.lookup_insert_cases hc' with ⟨rfl, rfl⟩ | ⟨-, hc'⟩
  · exact ⟨haddr, hc⟩
  · exact h addr' c' hc'

lemma Traced.addContact (h : Traced l asked) (node : CompactNode) :
    Traced (l.addContact node) asked := by
  unfold Lookup.addContact
  split
  · exact h
  split
  · exact h
  · exact h.insert (by rfl) fun hs => (hs rfl).elim

lemma Traced.foldl (nodes : List CompactNode) (h : Traced l asked) :
    Traced (nodes.foldl Lookup.addContact l) asked :=
  foldlRecOn nodes Lookup.addContact (motive := (Traced · asked)) h
    fun _ h node _ => h.addContact node

lemma Traced.modifyContact (h : Traced l asked) {addr : SocketAddr} {f : Contact → Contact}
    (hf : ∀ c, (f c).node = c.node)
    (hs : ∀ c, l.contacts.lookup addr = some c → (f c).state ≠ .unknown → addr ∈ asked) :
    Traced (l.modifyContact addr f) asked := by
  unfold Lookup.modifyContact
  split
  · rename_i c hc
    exact h.insert ((congrArg _ (hf c)).trans (h addr c hc).1) (hs c hc)
  · exact h

lemma Traced.nextQueries (h : Traced l asked) :
    Traced l.nextQueries.1 (asked ++ l.nextQueries.2.map (·.addr)) := by
  have hmono : ∀ more, Traced l (asked ++ more) := fun more addr c hc =>
    ⟨(h addr c hc).1, fun hs => mem_append_left _ ((h addr c hc).2 hs)⟩
  -- Each node handed out is waited for, and is one of those asked.
  exact foldlRecOn (motive := fun l' => Traced l' (asked ++ l.nextQueries.2.map (·.addr))) _ _
    (hmono _) fun _ h' _ hn => h'.modifyContact (fun _ => rfl) fun _ _ _ =>
      mem_append_right _ (mem_map_of_mem hn)

lemma Traced.onResponse (h : Traced l asked) {src : SocketAddr} (hsrc : src ∈ asked) (id : NodeId)
    (r : Response) : Traced (l.onResponse src id r).1 asked := by
  unfold Lookup.onResponse
  dsimp only
  split
  · rename_i c hc
    exact Traced.foldl r.nodes (Traced.insert h (by exact (h src c hc).1) fun _ => hsrc)
  · exact Traced.foldl r.nodes (Traced.insert h (by rfl) fun _ => hsrc)

lemma Inv.step {s s' : Search} {a : LookupAct} (hi : Inv s) (h : s.step a = some s') : Inv s' := by
  cases a with
  | next =>
    cases h
    exact ⟨hi.traced.nextQueries, append_subset.2
      ⟨subset_append_of_subset_left _ hi.waiting, subset_append_right _ _⟩⟩
  | response src id r =>
    obtain ⟨hsrc, h⟩ := ite_none_right_eq_some.1 h
    cases h
    exact ⟨hi.traced.onResponse (hi.waiting hsrc) id r, List.Subset.trans erase_subset hi.waiting⟩
  | timeout src =>
    obtain ⟨hsrc, h⟩ := ite_none_right_eq_some.1 h
    cases h
    refine ⟨hi.traced.modifyContact (fun c => ?_) fun _ _ _ => hi.waiting hsrc,
      List.Subset.trans erase_subset hi.waiting⟩
    split <;> rfl

lemma Traced.contact (h : Traced l asked) (hc : c ∈ l.contactList)
    (hs : c.state ≠ .unknown) : c.node.addr ∈ asked := by
  obtain ⟨⟨addr, c'⟩, hmem, rfl⟩ := mem_map.1 hc
  obtain ⟨rfl, hasked⟩ := h addr c' (AList.mem_lookup_iff.2 hmem)
  exact hasked hs

lemma mem_sorted {cs : List Contact} : c ∈ l.sorted cs ↔ c ∈ cs :=
  mem_insertionSort _

/-- A contact is one of the closest, or there are `count` of them and none is farther. -/
lemma closest_or {cs : List Contact} (hc : c ∈ cs) (count : Nat) :
    c ∈ (l.sorted cs).take count ∨ ((l.sorted cs).take count).length = count ∧
      ∀ d ∈ (l.sorted cs).take count, xorLe l.target d.node.id c.node.id := by
  have hsorted : (l.sorted cs).Pairwise fun a b => xorLe l.target a.node.id b.node.id := by
    have : Std.Total fun a b : Contact => xorLe l.target a.node.id b.node.id :=
      ⟨fun a b => Nat.le_total _ _⟩
    have : IsTrans Contact fun a b => xorLe l.target a.node.id b.node.id :=
      ⟨fun a b c => Nat.le_trans⟩
    exact pairwise_insertionSort _ _
  have hmem : c ∈ l.sorted cs := mem_sorted.2 hc
  rw [← take_append_drop count (l.sorted cs)] at hsorted hmem
  rcases mem_append.1 hmem with hmem | hmem
  · exact .inl hmem
  · refine .inr ⟨?_, fun d hd => (pairwise_append.1 hsorted).2.2 d hd c hmem⟩
    have hlt : 0 < ((l.sorted cs).drop count).length := length_pos_of_mem hmem
    rw [length_drop] at hlt
    rw [length_take]
    omega

lemma isDone_settled (h : l.isDone) :
    (∀ c ∈ l.contactList, c.state ≠ .pending) ∧ ∀ c ∈ l.closestContacts k, c.state ≠ .unknown := by
  unfold Lookup.isDone at h
  split at h
  · cases h
  rename_i hpending
  refine ⟨fun c hc hs => hpending (List.any_eq_true.2 ⟨c, hc, by simp [hs]⟩), fun c hc hs => ?_⟩
  split at h
  · split at h
    · cases h
    · rename_i hnone
      exact hnone (List.any_eq_true.2 ⟨c, hc, by simp [hs]⟩)
  · rename_i hunknown
    exact hunknown (List.any_eq_true.2 ⟨c, mem_sorted.1 (mem_of_mem_take hc), by simp [hs]⟩)

/-- When a lookup is done it waits for no contact, and has asked the `k` closest contacts it knows of,
whether they have answered or not: one it has not asked is not closer than any of these, and there is
none if it knows of fewer than `k`. It announces to those of them that gave a token. -/
theorem done_closest (target : NodeId) (kind : LookupKind) (seeds : List CompactNode)
    (as : List LookupAct) (s : Search)
    (hrun : Run step anyStep { lookup := .new target kind seeds } as s)
    (hdone : s.lookup.isDone) :
    (∀ c ∈ s.lookup.contactList, c.state ≠ .pending) ∧
      (∀ d ∈ s.lookup.closestContacts k, d.node.addr ∈ s.asked) ∧
      (∀ c ∈ s.lookup.contactList, c.node.addr ∉ s.asked →
        (s.lookup.closestContacts k).length = k ∧
          ∀ d ∈ s.lookup.closestContacts k, xorLe s.lookup.target d.node.id c.node.id) ∧
      ∀ x, x ∈ s.lookup.announceTargets ↔
        ∃ d ∈ s.lookup.closestContacts k, d.node = x.1 ∧ d.token = some x.2 := by
  have hinv : Inv s := by
    refine hrun.inv (fun hi _ h => hi.step h) ⟨Traced.foldl seeds fun addr c hc => ?_, fun _ => id⟩
    cases hc
  obtain ⟨hpending, hclosest⟩ := isDone_settled hdone
  have hasked : ∀ d ∈ s.lookup.closestContacts k, d.node.addr ∈ s.asked := fun d hd =>
    hinv.traced.contact (mem_sorted.1 (mem_of_mem_take hd)) (hclosest d hd)
  refine ⟨hpending, hasked, fun c hc hno => ?_, fun x => ?_⟩
  · exact (closest_or hc k).resolve_left fun hin => hno (hasked c hin)
  · simp only [Lookup.announceTargets, mem_filterMap, map_eq_some_iff, Prod.ext_iff]
    exact ⟨fun ⟨d, hd, t, ht, hn, htok⟩ => ⟨d, hd, hn, htok ▸ ht⟩,
      fun ⟨d, hd, hn, ht⟩ => ⟨d, hd, x.2, ht, hn, rfl⟩⟩

/-- The contact number `i`, at distance `i`. -/
def seed (i : Nat) : CompactNode := ⟨BitVec.ofNat 160 i, ⟨.v4 0x0a000001, i.toUInt16⟩⟩

/-- Queries that are answered, apart from those to the contacts in `dead`. -/
def rounds (dead : List Nat) : List (List Nat) → List LookupAct :=
  List.flatMap fun round => .next :: round.map fun i =>
    if i ∈ dead then .timeout (seed i).addr
    else .response (seed i).addr (seed i).id { id := (seed i).id }

def seeds (n : Nat) : List CompactNode := (List.range n).map fun i => seed (i + 1)

/-- Two contacts, which both answer. -/
theorem done_closest_two : ∃ s,
    Run step anyStep { lookup := .new 0 .getPeers (seeds 2) } (rounds [] [[1, 2]]) s ∧
      ∀ d ∈ s.lookup.closestContacts k, d.node.addr ∈ s.asked :=
  have hrun := Run.of_isSome
  ⟨_, hrun, (done_closest 0 .getPeers (seeds 2) _ _ hrun (by decide +kernel)).2.1⟩

/-- Two of the ten contacts do not answer: the lookup is done with seven answers, fewer than `k`, and
has not asked the tenth. -/
theorem done_without_asking : ∃ s, Run step anyStep { lookup := .new 0 .getPeers (seeds 10) }
        (rounds [3, 6] [[1, 2, 3], [4, 5, 6], [7, 8, 9]]) s ∧
      s.lookup.isDone ∧ s.lookup.contactList.countP (·.state = .responded) = 7 ∧ 7 < k ∧
      ∃ c ∈ s.lookup.contactList, c.node.addr ∉ s.asked :=
  ⟨_, .of_isSome, by decide +kernel, by decide +kernel, by decide,
    by decide +kernel⟩

end Search

end BitRev.Dht
