import BitRev.Session.State

/-!
# The queue

`evaluate_queue`: which torrents and magnets may transfer, in queue order and under the limits on
active ones. It first decides on a state for each (`queueAssignments`) and then stores the states
and tells the DHT actor.

* `Assignable`: what can be assigned, and to whom: never to a blocked torrent.
* `evaluateQueue_ctl`: what that does to a state cell. A blocked cell stays as it is.
-/

namespace BitRev

open List

def slotAvailable (seeding downloading : Bool) (dl ul maxDl maxUl maxAll : Nat) : Bool :=
  if maxAll > 0 ∧ dl + ul ≥ maxAll then false
  else if downloading ∧ maxDl > 0 ∧ dl ≥ maxDl then false
  else if seeding ∧ maxUl > 0 ∧ ul ≥ maxUl then false
  else true

namespace Session

section

variable (s : Session)

def queueItems : List (Nat × TorrentId) :=
  (s.torrents.entries.map fun e => ((s.sess e.2).queuePosition, e.1)) ++
    ((s.pending.entries.filter fun e => e.1 ∉ s.torrents).map fun e =>
      ((s.pend e.2).queuePosition, e.1))

def queueLe (a b : Nat × TorrentId) : Prop := a.1 < b.1 ∨ (a.1 = b.1 ∧ a.2.toNat ≤ b.2.toNat)

instance : DecidableRel queueLe := fun a b =>
  inferInstanceAs (Decidable (a.1 < b.1 ∨ (a.1 = b.1 ∧ a.2.toNat ≤ b.2.toNat)))

def queueOrder : List TorrentId := (s.queueItems.insertionSort queueLe).map (·.2)

def setTorrentPosition (id : TorrentId) (pos : Nat) : Session :=
  match s.torrents.lookup id with
  | some r => s.modifySess r fun t => { t with queuePosition := pos }
  | none => s

def setPendingPosition (id : TorrentId) (pos : Nat) : Session :=
  match s.pending.lookup id with
  | some p => s.modifyPend p fun t => { t with queuePosition := pos }
  | none => s

def applyQueueOrder (ids : List TorrentId) : Session :=
  { ids.zipIdx.foldl (fun s x => (s.setTorrentPosition x.1 x.2).setPendingPosition x.1 x.2) s with
    nextQueuePos := ids.length }

def cellOf (id : TorrentId) : Option Nat :=
  match s.torrents.lookup id with
  | some r => some (s.sess r).ctl
  | none => (s.pending.lookup id).map fun p => (s.pend p).ctl

def seedLimitReached (e : Env) (r : Nat) (id : TorrentId) : Bool :=
  s.isComplete r && e.seedLimit id

def torrentIsSlow (e : Env) (id : TorrentId) : Bool :=
  s.options.dontCountSlow && e.slow id

/-- The active downloads and uploads counted so far, and the assignments made. -/
structure Slots where
  dl : Nat := 0
  ul : Nat := 0
  assignments : List (TorrentId × TorrentState) := []

def slotFor (complete force : Bool) (acc : Slots) : Bool :=
  force || slotAvailable complete (!complete) acc.dl acc.ul s.options.maxActiveDownloads
    s.options.maxActiveUploads s.options.maxActive

/-- One turn of the loop of `evaluate_queue`. -/
def assign (e : Env) (acc : Slots) (id : TorrentId) : Slots :=
  let counts := if s.torrentIsSlow e id then 0 else 1
  match s.torrents.lookup id with
  | some r =>
    if (s.state (s.sess r).ctl).isBlocked then acc
    else if s.seedLimitReached e r id then
      { acc with assignments := acc.assignments ++ [(id, .paused)] }
    else if s.slotFor (s.isComplete r) (s.sess r).forceStart acc then
      { dl := if s.isComplete r then acc.dl else acc.dl + counts
        ul := if s.isComplete r then acc.ul + counts else acc.ul
        assignments := acc.assignments ++ [(id, s.activeState r)] }
    else { acc with assignments := acc.assignments ++ [(id, .queued)] }
  | none =>
    match s.pending.lookup id with
    | some p =>
      if (s.state (s.pend p).ctl).isBlocked then acc
      else if s.slotFor false (s.pend p).forceStart acc then
        { acc with
          dl := acc.dl + counts, assignments := acc.assignments ++ [(id, .metadata)] }
      else { acc with assignments := acc.assignments ++ [(id, .queued)] }
    | none => acc

def queueAssignments (e : Env) : List (TorrentId × TorrentState) :=
  (s.queueOrder.foldl (s.assign e) {}).assignments

def applyAssignment (g : Signals) (a : TorrentId × TorrentState) : Signals :=
  match s.cellOf a.1 with
  | some c =>
    let g := g.setState c a.1 a.2
    if s.options.dht then { g with dhtTx := g.dhtTx ++ [.setActive a.1 a.2.transferEnabled] } else g
  | none => g

def evaluateQueue (e : Env) : Session :=
  { s with
    sig := if s.restoring then s.sig else (s.queueAssignments e).foldl s.applyAssignment s.sig }

def evaluateQueueIf (b : Bool) (e : Env) : Session :=
  { s with sig := if b then (s.evaluateQueue e).sig else s.sig }

end

/-! ## What is assigned -/

structure Assignable (s : Session) (e : Env) (a : TorrentId × TorrentState) : Prop where
  cell : ∃ c, s.cellOf a.1 = some c ∧ (s.state c).isBlocked = false
  torrent : ∀ r, s.torrents.lookup a.1 = some r →
    (a.2 = .paused ∧ s.seedLimitReached e r a.1) ∨ a.2 = s.activeState r ∨ a.2 = .queued
  magnet : s.torrents.lookup a.1 = none → a.2 = .metadata ∨ a.2 = .queued

variable (s : Session) (e : Env)

lemma assign_cases (acc : Slots) (id : TorrentId) :
    (s.assign e acc id).assignments = acc.assignments ∨
      ∃ st, (s.assign e acc id).assignments = acc.assignments ++ [(id, st)] ∧
        Assignable s e (id, st) := by
  unfold assign
  cases ht : s.torrents.lookup id with
  | some r =>
    have hcell : s.cellOf id = some (s.sess r).ctl := by rw [cellOf, ht]
    simp only
    split
    · exact .inl rfl
    rename_i hb
    have hmk {st : TorrentState} (h : (st = .paused ∧ s.seedLimitReached e r id) ∨
        st = s.activeState r ∨ st = .queued) : Assignable s e (id, st) :=
      ⟨⟨_, hcell, Bool.eq_false_iff.2 hb⟩, by simpa [ht] using h, by simp [ht]⟩
    split
    · rename_i hl
      exact .inr ⟨_, rfl, hmk (.inl ⟨rfl, hl⟩)⟩
    split
    · exact .inr ⟨_, rfl, hmk (.inr (.inl rfl))⟩
    · exact .inr ⟨_, rfl, hmk (.inr (.inr rfl))⟩
  | none =>
    cases hp : s.pending.lookup id with
    | none => exact .inl rfl
    | some p =>
      have hcell : s.cellOf id = some (s.pend p).ctl := by rw [cellOf, ht, hp]; rfl
      simp only
      split
      · exact .inl rfl
      rename_i hb
      have hmk {st : TorrentState} (h : st = .metadata ∨ st = .queued) : Assignable s e (id, st) :=
        ⟨⟨_, hcell, Bool.eq_false_iff.2 hb⟩, by simp [ht], fun _ => h⟩
      split
      · exact .inr ⟨_, rfl, hmk (.inl rfl)⟩
      · exact .inr ⟨_, rfl, hmk (.inr rfl)⟩

variable {s e} in
lemma queueAssignments_mem {a : TorrentId × TorrentState}
    (h : a ∈ s.queueAssignments e) : Assignable s e a := by
  refine foldlRecOn (motive := fun acc : Slots => ∀ a ∈ acc.assignments, Assignable s e a) _ _
    (by simp) (fun acc h id _ a ha => ?_) a h
  rcases assign_cases s e acc id with heq | ⟨st, heq, hst⟩
  · exact h a (heq ▸ ha)
  · rw [heq, mem_append, mem_singleton] at ha
    rcases ha with ha | rfl
    · exact h a ha
    · exact hst

/-! ## What the assignments do -/

lemma applyAssignment_ctl (g : Signals) (a : TorrentId × TorrentState) (c : Nat) :
    (s.applyAssignment g a).ctl c =
      if s.cellOf a.1 = some c then
        { g.ctl c with torrentState := a.2, downloadState := syncDownloadState a.2 }
      else g.ctl c := by
  unfold applyAssignment
  cases hc : s.cellOf a.1 with
  | none => rfl
  | some c' =>
    have hctl : (if s.options.dht then { g.setState c' a.1 a.2 with
          dhtTx := (g.setState c' a.1 a.2).dhtTx ++ [.setActive a.1 a.2.transferEnabled] }
        else g.setState c' a.1 a.2).ctl c = (g.setState c' a.1 a.2).ctl c := by
      split <;> rfl
    refine hctl.trans ?_
    rcases eq_or_ne c c' with rfl | h
    · rw [if_pos rfl, Signals.setState_ctl_self]
    · rw [if_neg fun heq => h (Option.some.inj heq).symm, Signals.setState_ctl_ne g a.1 a.2 h]

/-- A cell keeps what it holds, or holds what was assigned last to the id it belongs to. -/
lemma foldl_applyAssignment_ctl (c : Nat) :
    ∀ (as : List (TorrentId × TorrentState)) (g : Signals),
      (as.foldl s.applyAssignment g).ctl c = g.ctl c ∨
        ∃ a ∈ as, s.cellOf a.1 = some c ∧ (as.foldl s.applyAssignment g).ctl c =
          { g.ctl c with torrentState := a.2, downloadState := syncDownloadState a.2 }
  | [], _ => .inl rfl
  | a :: as, g => by
    have hstep := applyAssignment_ctl s g a c
    rw [foldl_cons]
    rcases foldl_applyAssignment_ctl c as (s.applyAssignment g a) with h | ⟨b, hb, hbc, h⟩
    · by_cases ha : s.cellOf a.1 = some c
      · rw [if_pos ha] at hstep
        exact .inr ⟨a, mem_cons_self, ha, h.trans hstep⟩
      · rw [if_neg ha] at hstep
        exact .inl (h.trans hstep)
    · refine .inr ⟨b, mem_cons_of_mem _ hb, hbc, h.trans ?_⟩
      rw [hstep]
      split <;> rfl

lemma evaluateQueue_ctl (c : Nat) :
    (s.evaluateQueue e).sig.ctl c = s.sig.ctl c ∨
      ∃ a ∈ s.queueAssignments e, s.cellOf a.1 = some c ∧ (s.state c).isBlocked = false ∧
        (s.evaluateQueue e).sig.ctl c =
          { s.sig.ctl c with torrentState := a.2, downloadState := syncDownloadState a.2 } := by
  unfold evaluateQueue
  cases s.restoring with
  | true => exact .inl rfl
  | false =>
    rcases foldl_applyAssignment_ctl s c (s.queueAssignments e) s.sig with h | ⟨a, ha, hc, h⟩
    · exact .inl h
    · obtain ⟨c', hc', hb⟩ := (queueAssignments_mem ha).cell
      rw [hc] at hc'
      cases hc'
      exact .inr ⟨a, ha, hc, hb, h⟩

variable {s e} in
lemma evaluateQueue_blocked {c : Nat} (h : (s.state c).isBlocked) :
    (s.evaluateQueue e).sig.ctl c = s.sig.ctl c := by
  rcases evaluateQueue_ctl s e c with heq | ⟨a, -, -, hb, -⟩
  · exact heq
  · rw [h] at hb
    cases hb

@[simp] lemma evaluateQueue_infoHash (c : Nat) :
    ((s.evaluateQueue e).sig.ctl c).infoHash = (s.sig.ctl c).infoHash := by
  rcases evaluateQueue_ctl s e c with h | ⟨a, -, -, -, h⟩ <;> rw [h]

variable {s e} in
/-- What storing an assigned state and telling the DHT actor keep, evaluating the queue keeps. -/
lemma evaluateQueue_rec {I : Signals → Prop} (h : I s.sig)
    (hset : ∀ g, I g → ∀ (a : TorrentId × TorrentState) c, s.cellOf a.1 = some c →
      I (g.setState c a.1 a.2))
    (hdht : ∀ g, I g → ∀ a ∈ s.queueAssignments e,
      I { g with dhtTx := g.dhtTx ++ [.setActive a.1 a.2.transferEnabled] }) :
    I (s.evaluateQueue e).sig := by
  unfold evaluateQueue
  cases s.restoring with
  | true => exact h
  | false =>
    refine foldlRecOn _ _ h fun g hg a ha => ?_
    unfold applyAssignment
    split
    · rename_i c hc
      dsimp only
      split
      · exact hdht _ (hset g hg a c hc) a ha
      · exact hset g hg a c hc
    · exact hg

lemma evaluateQueue_dhtTx :
    ∃ new, (s.evaluateQueue e).sig.dhtTx = s.sig.dhtTx ++ new ∧
      ∀ cmd ∈ new, ∃ a ∈ s.queueAssignments e, cmd = .setActive a.1 a.2.transferEnabled := by
  refine evaluateQueue_rec (I := fun g => ∃ new, g.dhtTx = s.sig.dhtTx ++ new ∧ ∀ cmd ∈ new,
    ∃ a ∈ s.queueAssignments e, cmd = .setActive a.1 a.2.transferEnabled)
    ⟨[], by simp⟩ (fun g hg a c _ => by simpa using hg) fun g ⟨new, hnew, hmem⟩ a ha => ?_
  exact ⟨new ++ [_], by rw [hnew, append_assoc],
    forall_mem_append.2 ⟨hmem, forall_mem_singleton.2 ⟨a, ha, rfl⟩⟩⟩

end Session

end BitRev
