import BitRev.Framework.Assoc
import BitRev.Framework.Bytes
import BitRev.Framework.Run

/-!
# Synchronising the clients of the web server

`SyncCache` of `qbittorrent.rs`: `maindata` answers in full, or with what has changed since the last
answer to anyone if that is the answer the client had last. A client keeps a view of the torrents,
categories and tags; an answer may be lost on its way to it.

* `merge_delta`: the changes since `old`, merged into `old`, give `new`.
* `Sync.inv_step`: a client that had the last answer has what the cache holds.
* `Sync.view_exact`: after an answer the client has what was passed to the call.
-/

namespace BitRev.Server

variable {K V : Type} [DecidableEq K] [DecidableEq V]

/-- What `maindata` is called with. -/
structure Data (K V : Type) where
  torrents : AList fun _ : K => V := ∅
  categories : AList fun _ : K => V := ∅
  tags : List Bytes := []

structure SyncInner (K V : Type) where
  rid : Nat := 0
  torrents : AList fun _ : K => V := ∅
  categories : AList fun _ : K => V := ∅

/-- The answer, without the state of the server, which is passed through. There are no tags in an
answer that is not full. -/
structure Maindata (K V : Type) where
  rid : Nat
  fullUpdate : Bool
  torrents : AList fun _ : K => V
  torrentsRemoved : List K := []
  categories : AList fun _ : K => V
  categoriesRemoved : List K := []
  tags : Option (List Bytes) := none

def changed (old new : AList fun _ : K => V) : AList fun _ : K => V :=
  Assoc.retain (fun k v => old.lookup k ≠ some v) new

def removed (old new : AList fun _ : K => V) : List K := old.keys.filter (· ∉ new)

def maindata (inner : SyncInner K V) (clientRid : Nat) (d : Data K V) :
    SyncInner K V × Maindata K V :=
  let rid := min (inner.rid + 1) (2 ^ 64 - 1)
  let next : SyncInner K V := ⟨rid, d.torrents, d.categories⟩
  if clientRid = 0 ∨ clientRid ≠ inner.rid then
    (next, { rid, fullUpdate := true, torrents := d.torrents, categories := d.categories,
             tags := some d.tags })
  else
    (next,
      { rid, fullUpdate := false
        torrents := changed inner.torrents d.torrents
        torrentsRemoved := removed inner.torrents d.torrents
        categories := changed inner.categories d.categories
        categoriesRemoved := removed inner.categories d.categories })

/-! ## Clients -/

def merge (view changed : AList fun _ : K => V) (removed : List K) : AList fun _ : K => V :=
  changed ∪ Assoc.retain (fun k _ => k ∉ removed) view

structure Client (K V : Type) where
  rid : Nat := 0
  view : Data K V := {}

/-- A full answer replaces the view, another one is merged into it. -/
def Client.receive (c : Client K V) (m : Maindata K V) : Client K V where
  rid := m.rid
  view :=
    if m.fullUpdate then ⟨m.torrents, m.categories, m.tags.getD c.view.tags⟩
    else
      { torrents := merge c.view.torrents m.torrents m.torrentsRemoved
        categories := merge c.view.categories m.categories m.categoriesRemoved
        tags := m.tags.getD c.view.tags }

/-- The cache and the clients. `tags` are those of the last call. -/
structure Sync (K V : Type) where
  inner : SyncInner K V := {}
  clients : Nat → Client K V := fun _ => {}
  tags : List Bytes := []

/-- A call of a client, which may start anew; its answer may be lost. -/
structure Call (K V : Type) where
  client : Nat
  fresh : Bool := false
  data : Data K V
  lost : Bool := false

structure Data.Shows (view d : Data K V) : Prop where
  torrents : ∀ k, view.torrents.lookup k = d.torrents.lookup k
  categories : ∀ k, view.categories.lookup k = d.categories.lookup k
  tags : view.tags = d.tags

namespace Sync

def ridOf (w : Sync K V) (c : Call K V) : Nat := if c.fresh then 0 else (w.clients c.client).rid

def step (w : Sync K V) (c : Call K V) : Option (Sync K V) :=
  let answer := maindata w.inner (w.ridOf c) c.data
  some
    { inner := answer.1
      clients := fun i =>
        if i = c.client ∧ c.lost = false then (w.clients i).receive answer.2 else w.clients i
      tags := c.data.tags }

/-- The count of answers does not end, and the tags are those of the call before if the client had
the answer to that. -/
def Steady (w : Sync K V) (c : Call K V) : Prop :=
  w.inner.rid + 1 < 2 ^ 64 ∧ (w.ridOf c = w.inner.rid → w.ridOf c ≠ 0 → c.data.tags = w.tags)

/-- What the cache holds. -/
def base (w : Sync K V) : Data K V := ⟨w.inner.torrents, w.inner.categories, w.tags⟩

structure Inv (w : Sync K V) : Prop where
  le : ∀ i, (w.clients i).rid ≤ w.inner.rid
  shows : ∀ i, (w.clients i).rid ≠ 0 → (w.clients i).rid = w.inner.rid →
    (w.clients i).view.Shows w.base

variable {w w' : Sync K V} {c : Call K V}

lemma merge_delta {view old new : AList fun _ : K => V} (h : ∀ k, view.lookup k = old.lookup k)
    (k : K) : (merge view (changed old new) (removed old new)).lookup k = new.lookup k := by
  have hmem : k ∈ changed old new ↔ ∃ v, new.lookup k = some v ∧ old.lookup k ≠ some v := by
    rw [← AList.lookup_isSome, Option.isSome_iff_exists]
    simp [changed, Assoc.lookup_retain]
  have hgone : k ∈ removed old new ↔ (∃ v, old.lookup k = some v) ∧ new.lookup k = none := by
    rw [removed, List.mem_filter, ← AList.mem_keys, ← AList.lookup_isSome,
      Option.isSome_iff_exists, decide_eq_true_eq, AList.lookup_eq_none]
  ext v
  rw [← Option.mem_def, merge, AList.mem_lookup_union, hmem]
  simp only [Option.mem_def, changed, Assoc.lookup_retain, h, hgone, decide_eq_true_eq]
  -- Whether the key is new, gone, or in both with the same or another value.
  cases hold : old.lookup k <;> cases hnew : new.lookup k <;> grind

/-- The answer to a call, if it arrives, makes the view of the client that of the call. -/
lemma receive_shows (hw : Inv w) (hs : Steady w c) :
    ((w.clients c.client).receive (maindata w.inner (w.ridOf c) c.data).2).view.Shows c.data := by
  simp only [maindata]
  by_cases hfull : w.ridOf c = 0 ∨ w.ridOf c ≠ w.inner.rid
  · simp only [if_pos hfull]
    exact ⟨fun _ => rfl, fun _ => rfl, rfl⟩
  · simp only [if_neg hfull]
    obtain ⟨hne, heq⟩ := not_or.1 hfull
    have heq := not_not.1 heq
    have hrid : w.ridOf c = (w.clients c.client).rid := by
      unfold ridOf at hne ⊢
      split at hne
      · exact absurd rfl hne
      · simp [*]
    have hview := hw.shows c.client (hrid ▸ hne) (hrid ▸ heq)
    exact ⟨merge_delta hview.torrents, merge_delta hview.categories,
      hview.tags.trans (hs.2 heq hne).symm⟩

lemma inv_step (hw : Inv w) (hs : Steady w c) (h : w.step c = some w') : Inv w' := by
  cases h
  have hrid : ∀ rid, (maindata w.inner rid c.data).1 = ⟨w.inner.rid + 1, c.data.torrents,
      c.data.categories⟩ ∧ (maindata w.inner rid c.data).2.rid = w.inner.rid + 1 := by
    have hmin : min (w.inner.rid + 1) (2 ^ 64 - 1) = w.inner.rid + 1 := by
      have := hs.1
      omega
    intro rid
    simp only [maindata]
    split <;> simp only [hmin, and_self]
  obtain ⟨hinner, hm⟩ := hrid (w.ridOf c)
  constructor
  · intro i
    simp only [hinner]
    split
    · exact Nat.le_of_eq hm
    · exact Nat.le_succ_of_le (hw.le i)
  · intro i hne heq
    simp only [hinner] at hne heq ⊢
    by_cases hi : i = c.client ∧ c.lost = false
    · simp only [if_pos hi]
      obtain ⟨rfl, -⟩ := hi
      have hview := receive_shows hw hs
      exact ⟨hview.torrents, hview.categories, hview.tags⟩
    · -- Nobody else has had the new answer.
      simp only [if_neg hi] at heq
      have := hw.le i
      omega

/-- After every answer that arrives, the client has the torrents, categories and tags of the call, if
every call was steady. -/
theorem view_exact (cs : List (Call K V)) (w w' : Sync K V) (c : Call K V)
    (hrun : Run step Steady {} cs w) (hs : Steady w c) (hlost : c.lost = false)
    (h : w.step c = some w') : (w'.clients c.client).view.Shows c.data := by
  have hinv : Inv w :=
    hrun.inv (fun hw hs h => inv_step hw hs h) ⟨fun _ => Nat.le_refl _, fun _ hne => absurd rfl hne⟩
  cases h
  simpa [hlost] using receive_shows hinv hs

def callOf (v : Option Nat) (tags : List Bytes) : Call Nat Nat :=
  { client := 0, data := { torrents := v.elim ∅ fun v => AList.insert 1 v ∅, tags } }

/-- A torrent is added, then removed. -/
theorem view_exact_two :
    ∃ w w', Run step Steady {} [callOf (some 7) []] w ∧ w.step (callOf none []) = some w' ∧
      (w'.clients 0).view.Shows (callOf none []).data :=
  have hrun := Run.cons ⟨by decide, fun _ _ => rfl⟩ rfl (.nil _)
  ⟨_, _, hrun, rfl, view_exact _ _ _ _ hrun ⟨by decide, fun _ _ => rfl⟩ rfl rfl⟩

/-- A tag is added after the first answer, and the client does not learn of it. -/
theorem tags_missed :
    ∃ w w', Run step anyStep {} [callOf none []] w ∧ w.step (callOf none [ascii "tv"]) = some w' ∧
      (w'.clients 0).view.tags = [] :=
  ⟨_, _, .cons trivial rfl (.nil _), rfl, rfl⟩

end Sync

end BitRev.Server
