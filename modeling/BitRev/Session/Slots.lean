import BitRev.Session.Writes

/-!
# Active torrents and the limits on them

`evaluate_queue` makes as many torrents active as the limits on active downloads, uploads and both
allow, from any state (`evaluateQueue_capped`). Between two evaluations the states only become
inactive, apart from three steps that make a torrent active without an evaluation: the registration
of a magnet, and the ends of a recheck and of a move.
-/

namespace BitRev

open TorrentState List Option AList
open Bool hiding true_and

namespace TorrentState

def downloads : TorrentState → Bool
  | downloading | metadata => true
  | _ => false

def uploads : TorrentState → Bool
  | seeding => true
  | _ => false

lemma transferEnabled_eq (st : TorrentState) :
    st.transferEnabled = (st.downloads || st.uploads) := by
  cases st <;> rfl

end TorrentState

namespace Session

/-- How many torrents and magnets, without the one that is skipped, are in a state of this kind. -/
def countState (s : Session) (q : TorrentState → Bool) (skip : Option TorrentId) : Nat :=
  s.queueOrder.countP fun id => skip ≠ some id && (s.stateOf id).any q

/-- This many active downloads and uploads are within the limits, where `0` is no limit. -/
structure Within (o : SessionOptions) (dl ul : Nat) : Prop where
  downloads : o.maxActiveDownloads = 0 ∨ dl ≤ o.maxActiveDownloads
  uploads : o.maxActiveUploads = 0 ∨ ul ≤ o.maxActiveUploads
  all : o.maxActive = 0 ∨ dl + ul ≤ o.maxActive

/-- The active torrents of the session are within the limits. -/
def Capped (s : Session) : Prop :=
  Within s.options (s.countState (·.downloads) none) (s.countState (·.uploads) none)

/-- `slot_available` for the torrent `id` in the state `st`, beside the other active ones. -/
def roomFor (s : Session) (id : TorrentId) (st : TorrentState) : Bool :=
  !st.transferEnabled || slotAvailable st.uploads st.downloads
    (s.countState (·.downloads) (some id)) (s.countState (·.uploads) (some id))
    s.options.maxActiveDownloads s.options.maxActiveUploads s.options.maxActive

variable {x : Ext} {P : Write → Prop} {s s₁ s' : Session} {e : Env} {id : TorrentId}
  {q : TorrentState → Bool} {st : TorrentState}

/-! ## Limits -/

lemma Within.mono {o : SessionOptions} {dl ul dl' ul' : Nat} (h : Within o dl ul)
    (hd : dl' ≤ dl) (hu : ul' ≤ ul) : Within o dl' ul' :=
  ⟨h.downloads.imp_right hd.trans, h.uploads.imp_right hu.trans,
    h.all.imp_right (add_le_add hd hu).trans⟩

lemma slotAvailable_spec {up down : Bool} {dl ul maxDl maxUl maxAll : Nat}
    (h : slotAvailable up down dl ul maxDl maxUl maxAll) :
    (maxAll = 0 ∨ dl + ul < maxAll) ∧ (down → maxDl = 0 ∨ dl < maxDl) ∧
      (up → maxUl = 0 ∨ ul < maxUl) := by
  unfold slotAvailable at h
  split at h
  · cases h
  split at h
  · cases h
  split_ifs at h
  rename_i hall hdl hul
  refine ⟨by omega, fun hd => ?_, fun hu => ?_⟩
  · simp only [hd, true_and] at hdl
    omega
  · simp only [hu, true_and] at hul
    omega

lemma Within.add {o : SessionOptions} {dl ul : Nat} (h : Within o dl ul) (st : TorrentState)
    (hst : st.transferEnabled = false ∨ slotAvailable st.uploads st.downloads dl ul
      o.maxActiveDownloads o.maxActiveUploads o.maxActive) :
    Within o (dl + if st.downloads then 1 else 0) (ul + if st.uploads then 1 else 0) := by
  have hdl := h.downloads
  have hul := h.uploads
  have hall := h.all
  rcases hst with hst | hst
  · rw [transferEnabled_eq, or_eq_false_iff] at hst
    simp only [hst.1, hst.2]
    exact h
  · obtain ⟨hroom, hroomDl, hroomUl⟩ := slotAvailable_spec hst
    cases hd : st.downloads with
    | true =>
      have hu : st.uploads = false := by cases st <;> simp_all [TorrentState.downloads,
        TorrentState.uploads]
      have := hroomDl hd
      refine ⟨?_, ?_, ?_⟩ <;> simp only [hu, if_true, false_eq_true, if_false] <;> omega
    | false =>
      cases hu : st.uploads with
      | true =>
        have := hroomUl hu
        refine ⟨?_, ?_, ?_⟩ <;> simp only [if_true, false_eq_true, if_false] <;> omega
      | false => simpa using h

/-! ## Counting -/

lemma mem_queueOrder : id ∈ s.queueOrder ↔ (s.cellOf id).isSome := by
  rw [queueOrder, List.mem_map]
  simp only [mem_insertionSort, queueItems, mem_append, List.mem_map, mem_filter]
  constructor
  · rintro ⟨_, ⟨y, hy, rfl⟩ | ⟨y, ⟨hy, hnot⟩, rfl⟩, rfl⟩
    · rw [cellOf_torrent (mem_entries_lookup hy)]
      rfl
    · have hnone : s.torrents.lookup y.1 = none :=
        lookup_eq_none.2 (of_decide_eq_true hnot)
      rw [cellOf_pending hnone (mem_entries_lookup hy)]
      rfl
  · intro h
    cases ht : s.torrents.lookup id with
    | some r => exact ⟨_, .inl ⟨⟨id, r⟩, mem_lookup_iff.1 ht, rfl⟩, rfl⟩
    | none =>
      rw [cellOf, ht, isSome_map] at h
      obtain ⟨p, hp⟩ := isSome_iff_exists.1 h
      refine ⟨_, .inr ⟨⟨id, p⟩, ⟨mem_lookup_iff.1 hp, ?_⟩, rfl⟩, rfl⟩
      exact decide_eq_true (lookup_eq_none.1 ht)

lemma nodup_queueOrder (s : Session) : s.queueOrder.Nodup := by
  have hperm : s.queueOrder.Perm (s.queueItems.map (·.2)) :=
    (perm_insertionSort queueLe s.queueItems).map _
  rw [hperm.nodup_iff, queueItems, map_append, List.map_map, List.map_map, nodup_append']
  refine ⟨s.torrents.keys_nodup, ?_, fun id hid hid' => ?_⟩
  · exact s.pending.keys_nodup.sublist (filter_sublist.map _)
  · obtain ⟨y, hy, rfl⟩ := List.mem_map.1 hid
    obtain ⟨z, hz, heq⟩ := List.mem_map.1 hid'
    have hkey : z.1 = y.1 := heq
    have hnot : z.1 ∉ s.torrents := of_decide_eq_true (mem_filter.1 hz).2
    have hlookup : s.torrents.lookup y.1 = some y.2 := mem_entries_lookup hy
    rw [hkey, ← lookup_isSome, hlookup] at hnot
    exact hnot rfl

/-- Those in a state of the kind `q` are among `l`. -/
lemma countState_le {l : List TorrentId}
    (h : ∀ id st, s.stateOf id = some st → q st → id ∈ l) :
    s.countState q none ≤ l.length := by
  rw [countState, countP_eq_length_filter]
  refine (subperm_of_subset ((nodup_queueOrder s).filter _) fun id hid => ?_).length_le
  obtain ⟨-, hq⟩ := mem_filter.1 hid
  simp only [and_eq_true, Option.any_eq_true] at hq
  obtain ⟨-, st, hst, hq⟩ := hq
  exact h id st hst hq

lemma countState_le_of_active
    (h : ∀ id st, s'.stateOf id = some st → q st → s.stateOf id = some st) :
    s'.countState q none ≤ s.countState q none := by
  rw [countState.eq_def s, countP_eq_length_filter]
  refine countState_le fun id st hst hq => ?_
  have hold := h id st hst hq
  refine mem_filter.2 ⟨mem_queueOrder.2 ?_, ?_⟩
  · rw [stateOf, map_eq_some_iff] at hold
    obtain ⟨c, hc, -⟩ := hold
    simp [hc]
  · simp [hold, hq]

lemma countState_le_of_but (hid : ∀ st', s'.stateOf id = some st' → q st' → st' = st)
    (h : ∀ i st', i ≠ id → s'.stateOf i = some st' → q st' → s.stateOf i = some st') :
    s'.countState q none ≤ s.countState q (some id) + if q st then 1 else 0 := by
  have hother : ∀ i st', i ≠ id → s'.stateOf i = some st' → q st' →
      i ∈ s.queueOrder.filter fun i => some id ≠ some i && (s.stateOf i).any q := by
    intro i st' hne hi hqi
    have hold := h i st' hne hi hqi
    refine mem_filter.2 ⟨mem_queueOrder.2 ?_, ?_⟩
    · obtain ⟨c, hc, -⟩ := map_eq_some_iff.1 hold
      simp [hc]
    · simp [hold, hqi, hne.symm]
  rw [countState.eq_def s, countP_eq_length_filter]
  cases hst : q st with
  | true =>
    refine countState_le (l := id :: s.queueOrder.filter
      fun i => some id ≠ some i && (s.stateOf i).any q) fun i st' hi hqi => ?_
    rcases eq_or_ne i id with rfl | hne
    · exact mem_cons_self
    · exact mem_cons_of_mem _ (hother i st' hne hi hqi)
  | false =>
    refine countState_le fun i st' hi hqi => hother i st' (fun heq => ?_) hi hqi
    subst heq
    rw [hid st' hi hqi, hst] at hqi
    cases hqi

lemma Capped.tame (h : s.Capped) (ho : s'.options = s.options)
    (ha : ∀ i st, s'.stateOf i = some st → st.transferEnabled → s.stateOf i = some st) :
    s'.Capped := by
  rw [Capped, ho]
  refine Within.mono h (countState_le_of_active fun i st hi hq => ha i st hi ?_)
    (countState_le_of_active fun i st hi hq => ha i st hi ?_)
  · rw [transferEnabled_eq, hq, Bool.true_or]
  · rw [transferEnabled_eq, hq, Bool.or_true]

lemma Capped.wake (h : s.Capped) (hroom : s.roomFor id st) (ho : s'.options = s.options)
    (ha : ∀ i st', s'.stateOf i = some st' → st'.transferEnabled →
      s.stateOf i = some st' ∨ i = id ∧ st' = st) : s'.Capped := by
  by_cases hid : ∀ st', s'.stateOf id = some st' → st'.transferEnabled → st' = st
  · have hle : ∀ q : TorrentState → Bool, (∀ st, q st → st.transferEnabled) →
        s'.countState q none ≤ s.countState q (some id) + if q st then 1 else 0 := by
      intro q hq
      refine countState_le_of_but (fun st' hst' hqs => hid st' hst' (hq st' hqs))
        fun i st' hne hi hqi => ?_
      exact (ha i st' hi (hq st' hqi)).resolve_right fun h => hne h.1
    have hothers : Within s.options (s.countState (·.downloads) (some id))
        (s.countState (·.uploads) (some id)) := by
      refine Within.mono h ?_ ?_ <;>
      · refine countP_mono_left fun i _ hi => ?_
        simp only [and_eq_true] at hi
        simpa using hi.2
    rw [roomFor, or_eq_true, not_eq_true'] at hroom
    rw [Capped, ho]
    refine (hothers.add st hroom).mono (hle _ fun st h => ?_) (hle _ fun st h => ?_)
    · rw [transferEnabled_eq, h, Bool.true_or]
    · rw [transferEnabled_eq, h, Bool.or_true]
  · -- it keeps the state it had
    push Not at hid
    obtain ⟨st₁, hst₁, hact, hne⟩ := hid
    refine h.tame ho fun i st' hi hact' => ?_
    rcases ha i st' hi hact' with hold | ⟨rfl, rfl⟩
    · exact hold
    · exact absurd (some.inj (hst₁.symm.trans hi)) hne

/-! ## The evaluation of the queue -/

/-- The counters are those of the assignments, and within the limits. -/
structure Counted (s : Session) (acc : Slots) : Prop where
  dl : acc.assignments.countP (·.2.downloads) = acc.dl
  ul : acc.assignments.countP (·.2.uploads) = acc.ul
  within : Within s.options acc.dl acc.ul

lemma Counted.add {acc : Slots} (h : Counted s acc) (id : TorrentId) (st : TorrentState)
    (hst : st.transferEnabled = false ∨ slotAvailable st.uploads st.downloads acc.dl acc.ul
      s.options.maxActiveDownloads s.options.maxActiveUploads s.options.maxActive) :
    Counted s ⟨acc.dl + if st.downloads then 1 else 0, acc.ul + if st.uploads then 1 else 0,
      acc.assignments ++ [(id, st)]⟩ :=
  ⟨by simp [countP_append, countP_cons, h.dl],
    by simp [countP_append, countP_cons, h.ul], h.within.add st hst⟩

lemma Counted.assign {acc : Slots} (h : Counted s acc) (hu : s.Unforced)
    (hslow : s.options.dontCountSlow = false) (id : TorrentId) : Counted s (s.assign e acc id) := by
  have hcounts : s.torrentIsSlow e id = false := by simp [torrentIsSlow, hslow]
  unfold Session.assign
  simp only [hcounts, false_eq_true, if_false]
  cases ht : s.torrents.lookup id with
  | some r =>
    have hforce : (s.sess r).forceStart = false := hu.1 ⟨id, r⟩ (mem_lookup_iff.1 ht)
    dsimp only
    split
    · exact h
    split
    · exact h.add id .paused (.inl rfl)
    split
    · rename_i hslot
      simp only [slotFor, hforce, Bool.false_or] at hslot
      rw [activeState]
      cases hc : s.isComplete r with
      | true =>
        rw [hc] at hslot
        exact h.add id .seeding (.inr hslot)
      | false =>
        rw [hc] at hslot
        exact h.add id .downloading (.inr hslot)
    · exact h.add id .queued (.inl rfl)
  | none =>
    dsimp only
    cases hp : s.pending.lookup id with
    | none => exact h
    | some p =>
      have hforce : (s.pend p).forceStart = false := hu.2 ⟨id, p⟩ (mem_lookup_iff.1 hp)
      dsimp only
      split
      · exact h
      split_ifs with hslot
      · simp only [slotFor, hforce, Bool.false_or] at hslot
        exact h.add id .metadata (.inr hslot)
      · exact h.add id .queued (.inl rfl)

lemma queueAssignments_counted (hu : s.Unforced) (hslow : s.options.dontCountSlow = false) :
    ∃ acc : Slots, acc.assignments = s.queueAssignments e ∧ Counted s acc := by
  refine ⟨_, rfl, foldlRecOn _ _ ?_ fun acc h id _ => h.assign hu hslow id⟩
  exact ⟨rfl, rfl, .inr (Nat.zero_le _), .inr (Nat.zero_le _), .inr (Nat.zero_le _)⟩

lemma mem_queueAssignments {c : Nat} (hc : s.cellOf id = some c)
    (hb : (s.state c).isBlocked = false) : ∃ st, (id, st) ∈ s.queueAssignments e := by
  have hassign : ∀ acc : Slots, ∃ st, (id, st) ∈ (s.assign e acc id).assignments := by
    intro acc
    unfold Session.assign
    unfold cellOf at hc
    split at hc
    · rename_i r hr
      cases hc
      simp only [hb, false_eq_true, if_false]
      split
      · exact ⟨.paused, by simp⟩
      split
      · exact ⟨_, mem_concat_self⟩
      · exact ⟨.queued, by simp⟩
    · rename_i hr
      obtain ⟨p, hp, rfl⟩ := map_eq_some_iff.1 hc
      simp only [hp, hb, false_eq_true, if_false]
      split
      · exact ⟨.metadata, by simp⟩
      · exact ⟨.queued, by simp⟩
  have hmem : id ∈ s.queueOrder := mem_queueOrder.2 (by simp [hc])
  obtain ⟨before, after, hsplit⟩ := append_of_mem hmem
  obtain ⟨st, hst⟩ := hassign (before.foldl (s.assign e) {})
  refine ⟨st, ?_⟩
  rw [queueAssignments, hsplit, foldl_append, foldl_cons]
  refine foldlRecOn (motive := fun acc : Slots => (id, st) ∈ acc.assignments) after _ hst
    fun acc ha i _ => ?_
  rcases assign_cases s e acc i with heq | ⟨st', heq, -⟩
  · rwa [heq]
  · rw [heq]
    exact mem_append_left _ ha

/-- A cell that something is assigned to holds something that was assigned to it. -/
lemma foldl_applyAssignment_state {c : Nat} :
    ∀ (as : List (TorrentId × TorrentState)) (g : Signals),
      (∃ a ∈ as, s.cellOf a.1 = some c) → ∃ a ∈ as, s.cellOf a.1 = some c ∧
        ((as.foldl s.applyAssignment g).ctl c).torrentState = a.2
  | a :: as, g, ⟨b, hb, hbc⟩ => by
    rw [foldl_cons]
    by_cases hrest : ∃ a ∈ as, s.cellOf a.1 = some c
    · obtain ⟨a', ha', h'⟩ := foldl_applyAssignment_state as (s.applyAssignment g a) hrest
      exact ⟨a', mem_cons_of_mem _ ha', h'⟩
    · have hba : b = a := (mem_cons.1 hb).resolve_right fun h => hrest ⟨b, h, hbc⟩
      subst hba
      refine ⟨b, mem_cons_self, hbc, ?_⟩
      rcases foldl_applyAssignment_ctl s c as (s.applyAssignment g b) with h | ⟨a', ha', hc', -⟩
      · rw [h, applyAssignment_ctl, if_pos hbc]
      · exact absurd ⟨a', ha', hc'⟩ hrest

/-- Distinct torrents and magnets have distinct cells. -/
def CellsApart (s : Session) : Prop :=
  ∀ id id' c, s.cellOf id = some c → s.cellOf id' = some c → id = id'

lemma Wf.cellsApart (hwf : s.Wf x) : s.CellsApart := fun _ _ _ h h' =>
  (hwf.cellOf_infoHash h).symm.trans (hwf.cellOf_infoHash h')

lemma evaluateQueue_active (hr : s.restoring = false) (hd : s.CellsApart)
    (h : (s.evaluateQueue e).stateOf id = some st) (hact : st.transferEnabled) :
    (id, st) ∈ s.queueAssignments e := by
  obtain ⟨c, hc, rfl⟩ := map_eq_some_iff.1 h
  have hc' : s.cellOf id = some c := hc
  cases hb : (s.state c).isBlocked with
  | true =>
    rw [state, evaluateQueue_blocked hb] at hact
    have hstate : (s.sig.ctl c).torrentState.isBlocked := hb
    cases hst : (s.sig.ctl c).torrentState <;> simp [hst, isBlocked, transferEnabled] at hstate hact
  | false =>
    obtain ⟨st', hmem⟩ := mem_queueAssignments (e := e) hc' hb
    obtain ⟨a, ha, hac, hstate⟩ :=
      foldl_applyAssignment_state (s.queueAssignments e) s.sig ⟨_, hmem, hc'⟩
    have hid : a.1 = id := hd _ _ c hac hc'
    have hsig : (s.evaluateQueue e).state c = a.2 := by
      simp only [state, evaluateQueue, hr, false_eq_true, if_false]
      exact hstate
    rw [hsig, ← hid]
    exact ha

/-- The limits hold after the queue has been evaluated. -/
lemma evaluateQueue_capped (hr : s.restoring = false) (hd : s.CellsApart) (hu : s.Unforced)
    (hslow : s.options.dontCountSlow = false) : (s.evaluateQueue e).Capped := by
  obtain ⟨acc, hacc, hcount⟩ := queueAssignments_counted (e := e) hu hslow
  have hle : ∀ q : TorrentState → Bool, (∀ st, q st → st.transferEnabled) →
      (s.evaluateQueue e).countState q none ≤ acc.assignments.countP (q ·.2) := by
    intro q hq
    rw [countP_eq_length_filter, ← length_map (f := Prod.fst)]
    refine countState_le fun id st hst hqs => ?_
    refine List.mem_map.2 ⟨(id, st), mem_filter.2 ⟨?_, hqs⟩, rfl⟩
    rw [hacc]
    exact evaluateQueue_active hr hd hst (hq st hqs)
  have hdl := hle (·.downloads) fun st h => by
    rw [transferEnabled_eq, h, Bool.true_or]
  have hul := hle (·.uploads) fun st h => by
    rw [transferEnabled_eq, h, Bool.or_true]
  rw [hcount.dl] at hdl
  rw [hcount.ul] at hul
  exact hcount.within.mono hdl hul

/-! ## Steps -/

lemma Path.active (h : Path P s s') {i : TorrentId}
    (hst : s'.stateOf i = some st) (hact : st.transferEnabled) :
    s.stateOf i = some st ∨ ∃ w, P w ∧ s.cellOf i = some w.cell ∧ w.st = st := by
  induction h with
  | still hf hstate _ =>
    obtain ⟨c, hc, rfl⟩ := map_eq_some_iff.1 hst
    rw [hf.cellOf] at hc
    refine .inl ?_
    rw [stateOf, hc, map_some, hstate i c hc]
  | write w hw hf hstate _ =>
    obtain ⟨c, hc, rfl⟩ := map_eq_some_iff.1 hst
    rw [hf.cellOf] at hc
    rw [hstate i c hc]
    split_ifs with heq
    · exact .inr ⟨w, hw, heq ▸ hc, .refl _⟩
    · exact .inl (by rw [stateOf, hc, map_some])
  | trans h₁ _ ih₁ ih₂ =>
    rcases ih₂ hst with hst | ⟨w, hw, hc, hwst⟩
    · exact ih₁ hst
    · exact .inr ⟨w, hw, h₁.frame.cellOf i ▸ hc, hwst⟩

lemma Path.quiet_active (h : Path (Quiet P) s s') {i : TorrentId} (hst : s'.stateOf i = some st)
    (hact : st.transferEnabled) : s.stateOf i = some st := by
  rcases h.active hst hact with h | ⟨w, hw, -, rfl⟩
  · exact h
  · rw [hw.2] at hact
    cases hact

/-- A step that evaluates the queue. -/
lemma Evals.capped (h : Evals e P s s') (hr : s.restoring = false) (hu : s.Unforced)
    (hslow : s.options.dontCountSlow = false) (hd : s'.CellsApart) : s'.Capped := by
  obtain ⟨s₁, h₁, h₂⟩ := h
  have hd₁ : s₁.CellsApart := by
    intro i i' c hi hi'
    have hcell : ∀ i, s'.cellOf i = s₁.cellOf i := h₂.frame.cellOf
    exact hd i i' c ((hcell i).trans hi) ((hcell i').trans hi')
  have hcap : (s₁.evaluateQueue e).Capped := evaluateQueue_capped (h₁.frame.restoring.trans hr) hd₁
    (h₁.frame.unforced hu) (by rw [h₁.frame.options]; exact hslow)
  exact hcap.tame h₂.frame.options fun i st hi hact => h₂.quiet_active hi hact

end Session

def Task.inserting : Task → Bool
  | .addListen _ _ _ startPaused => !startPaused
  | _ => false

def Task.Roomy (s : Session) (io : Io) : Task → Prop
  | .pendingOpen c => io.err = none → s.roomFor c.infoHash (Session.pendingInitial c)
  | .addListen c r _ startPaused => (s.sess r).forceStart = false ∧
    (startPaused → s.cellOf c.torrent.infoHash = some (s.sess r).ctl ∨
      (s.state (s.sess r).ctl).transferEnabled = false)
  | t => ∀ y ∈ t.wakesTo s io, s.roomFor (s.sess y.1).torrent.infoHash y.2

instance (s : Session) (io : Io) (t : Task) : Decidable (t.Roomy s io) := by
  rcases t <;> unfold Task.Roomy <;> infer_instance

namespace Session

variable {x : Ext} {P : Write → Prop} {s s₁ s' : Session} {e : Env} {a : Act}

/-- No torrent is force-started, and a task that makes one active without an evaluation of the queue
goes on only while there is room for it. -/
def Roomy (s : Session) : Env × Act → Prop
  | (_, .op (.setForceStart _ enabled)) => s.Unforced ∧ enabled = false
  | (_, .poll n io) => s.Unforced ∧ ∀ t ∈ s.tasks[n]?, t.Roomy s io
  | _ => s.Unforced

instance (s : Session) : ∀ a, Decidable (s.Roomy a) := by
  rintro ⟨e, ⟨o⟩ | _⟩
  case op => rcases o <;> unfold Roomy <;> infer_instance
  all_goals unfold Roomy; infer_instance

lemma Roomy.unforced (h : s.Roomy (e, a)) : s.Unforced := by
  unfold Roomy at h
  split at h
  · exact h.1
  · exact h.1
  · exact h

lemma before_stateOf (s : Session) (a : Act) (id : TorrentId) :
    (s.before a).stateOf id = s.stateOf id := by
  cases a <;> rfl

/-- The limits hold unless torrents are restored, or one is about to be inserted. -/
def Bounded (s : Session) : Prop :=
  s.restoring ∨ s.tasks.any Task.inserting ∨ s.Capped

lemma place_unforced (hu : s.Unforced) {c : AddCall} {r : Nat} (hr : (s.sess r).forceStart = false)
    (initial : TorrentState) : (s.place c r initial).Unforced := by
  have hforce : ∀ r', ((s.place c r initial).sess r').forceStart = (s.sess r').forceStart :=
    modifySess_sess (f := fun t => { t with running := true }) _ (fun _ => rfl) s r
  refine ⟨fun y hy => ?_, fun y hy => ?_⟩
  · rw [hforce]
    rcases Assoc.lookup_insert_cases (mem_entries_lookup hy) with ⟨-, heq⟩ | ⟨-, hold⟩
    · rw [heq]
      exact hr
    · exact hu.1 y (mem_lookup_iff.1 hold)
  · have hold : s.pending.lookup y.1 = some y.2 := by
      have hy' := mem_entries_lookup hy
      simp only [place] at hy'
      split at hy'
      · exact (Assoc.lookup_erase_cases hy').2
      · exact hy'
    exact hu.2 y (mem_lookup_iff.1 hold)

lemma takeOut_unforced (hu : s.Unforced) (id : TorrentId) (deleteFiles : Bool) :
    (s.takeOut id deleteFiles).Unforced := by
  refine ⟨fun y hy => ?_, fun y hy => ?_⟩
  · have hold := (Assoc.lookup_erase_cases (mem_entries_lookup hy)).2
    have hforce := hu.1 y (mem_lookup_iff.1 hold)
    simp only [takeOut]
    split <;> exact hforce
  · have hold := (Assoc.lookup_erase_cases (mem_entries_lookup hy)).2
    exact hu.2 y (mem_lookup_iff.1 hold)

/-- A step that is not an evaluation keeps the bound if it keeps the limits. -/
lemma Bounded.move (hb : s.Bounded) (hs : StepCase x s e a s')
    (hpoll : ∀ t, a.polled s = some t → t.inserting = false) (hr : s'.restoring = s.restoring)
    (hcap : s.Capped → s'.Capped) : s'.Bounded := by
  rcases hb with hb | hb | hb
  · exact .inl (hr.trans hb)
  · obtain ⟨t, ht, hi⟩ := List.any_eq_true.1 hb
    refine .inr (.inl (List.any_eq_true.2 ⟨t, ?_, hi⟩))
    rcases hs.task_kept ht with ht | ⟨n, io, rfl, ht⟩
    · exact ht
    · rw [hpoll t ht] at hi
      cases hi
  · exact .inr (.inr (hcap hb))

lemma insertTorrent_bounded {n : Nat} {io : Io} {c : AddCall} {r : Nat}
    {initial : TorrentState} {startPaused : Bool} (hb : s.Bounded)
    (hs : StepCase x s e (.poll n io) s') (hwf' : s'.Wf x)
    (ht : s.tasks[n]? = some (.addListen c r initial startPaused))
    (hs' : s' = (s.without n).insertTorrent e c r initial startPaused io.saved) (hu : s.Unforced)
    (hok : (Task.addListen c r initial startPaused).Roomy s io)
    (hslow : s.options.dontCountSlow = false) : s'.Bounded := by
  obtain ⟨hforce, hcell⟩ := hok
  have hplace : ((s.without n).place c r initial).Unforced :=
    place_unforced (s := s.without n) hu hforce initial
  obtain ⟨s₁, hf, hstate, -, hp⟩ := insertTorrent_placed (P := fun _ => False) (s.without n) e c r
    initial startPaused io.saved
  rw [← hs'] at hp
  have hresf : s₁.restoring = s.restoring := hf.restoring
  have hoptf : s₁.options = s.options := hf.options
  cases startPaused with
  | false =>
    cases hres : s.restoring with
    | true => exact .inl (hp.frame.restoring.trans (hresf.trans hres))
    | false =>
      have hapart : s₁.CellsApart := by
        intro i i' k hi hi'
        exact hwf'.cellsApart i i' k ((hp.frame.cellOf i).trans hi) ((hp.frame.cellOf i').trans hi')
      have hcap : (s₁.evaluateQueue e).Capped :=
        evaluateQueue_capped (hresf.trans hres) hapart (hf.unforced hplace) (by rw [hoptf]; exact hslow)
      refine .inr (.inr (hcap.tame hp.frame.options fun i st hi hact => ?_))
      exact (hp.active hi hact).resolve_right fun hw => hw.choose_spec.1
  | true =>
    refine hb.move hs (fun t ht' => ?_) (hp.frame.restoring.trans hresf) fun hcap =>
      hcap.tame (hp.frame.options.trans hoptf) fun i st hi hact => ?_
    · rw [Act.polled, ht] at ht'
      cases ht'
      rfl
    · have hi' : s₁.stateOf i = some st := by
        exact (hp.active hi hact).resolve_right fun hw => hw.choose_spec.1
      obtain ⟨k, hk, rfl⟩ := map_eq_some_iff.1 hi'
      rw [hf.cellOf, place_cellOf] at hk
      rw [hstate] at hact ⊢
      split_ifs at hk with heq
      · cases hk
        rcases hcell rfl with hown | hrest
        · rw [heq, stateOf, hown]
          rfl
        · have hrest' : ((s.without n).state ((s.without n).sess r).ctl).transferEnabled = false :=
            hrest
          rw [hact] at hrest'
          cases hrest'
      · have hk' : s.cellOf i = some k := hk
        rw [stateOf, hk']
        rfl

/-- A promotion that fails makes nothing active. -/
lemma promotionFailed_active {p : Nat} {msg : String} {i : TorrentId}
    (hi : (s.promotionFailed p msg).stateOf i = some st) (hact : st.transferEnabled) :
    s.stateOf i = some st := by
  obtain ⟨c, hc, rfl⟩ := map_eq_some_iff.1 hi
  have hc' : s.cellOf i = some c := hc
  rcases eq_or_ne c (s.pend p).ctl with rfl | hne
  · have herr : (s.promotionFailed p msg).state (s.pend p).ctl = .error msg :=
      congrArg Ctl.torrentState (Signals.writeState_ctl_self ..)
    rw [herr] at hact
    cases hact
  · rw [stateOf, hc', map_some]
    exact congrArg some (congrArg Ctl.torrentState (Signals.writeState_ctl_ne _ _ hne)).symm

lemma initTorrent_active {c : AddCall} {r : Nat} {t : Task} {i : TorrentId}
    (hpaused : s.startsPaused c) (hi : ((s.initTorrent c r).spawn t).stateOf i = some st)
    (hact : st.transferEnabled) : s.stateOf i = some st := by
  obtain ⟨k, hk, rfl⟩ := map_eq_some_iff.1 hi
  have hk' : s.cellOf i = some k := (StepCase.initTorrent_cellOf ..).symm.trans hk
  have hstate : ((s.initTorrent c r).spawn t).state k = _ := initTorrent_state s c r k
  rw [hstate] at hact ⊢
  split_ifs at hact with hne
  · rw [initialState, if_pos hpaused] at hact
    cases hact
  · rw [if_neg hne, stateOf, hk']
    rfl

lemma registerPending_stateOf (hwf : s.Wf x) (c : PendingCall) {i : TorrentId}
    (hi : (s.registerPending c).stateOf i = some st) :
    s.stateOf i = some st ∨ i = c.infoHash ∧ st = pendingInitial c := by
  rw [stateOf, registerPending_cellOf hwf] at hi
  split_ifs at hi with hnew
  · refine .inr ⟨hnew.1, ?_⟩
    rw [(some.inj hi).symm]
    simp [state, registerPending]
  · obtain ⟨k, hk, rfl⟩ := map_eq_some_iff.1 hi
    rw [registerPending_state hwf c hk, stateOf, hk]
    exact .inl rfl

lemma Bounded.step (hb : s.Bounded) (hwf : s.Wf x) (hok : s.Roomy (e, a))
    (hslow : s.options.dontCountSlow = false) (h : s.step x (e, a) = some s') : s'.Bounded := by
  have hu := hok.unforced
  have hs := step_cases h
  have hwf' := hwf.stepCase hs
  have hf := before_frame s a
  rcases step_listen h with ⟨n, io, c, r, initial, startPaused, rfl, ht, hs'⟩ | hpoll
  · exact insertTorrent_bounded hb hs hwf' ht hs' hu (hok.2 _ ht) hslow
  have hmove := hb.move hs fun t ht => by
    cases t with
    | addListen => cases hpoll _ ht
    | _ => rfl
  cases step_course hwf h with
  | quiet hp =>
    refine hmove (hp.frame.restoring.trans hf.restoring) fun hcap => ?_
    refine hcap.tame (hp.frame.options.trans hf.options) fun i st hi hact => ?_
    rw [← before_stateOf s a]
    exact hp.quiet_active hi hact
  | evals hv =>
    cases hres : s.restoring with
    | true => exact .inl ((hv.frame.restoring.trans hf.restoring).trans hres)
    | false =>
      refine .inr (.inr (hv.capped (hf.restoring.trans hres) (hf.unforced hu) ?_ hwf'.cellsApart))
      rw [hf.options]
      exact hslow
  | forced => exact absurd hok.2 (by decide)
  | @woken n io t r st _ ht hr hw hp =>
    have hroom : s.roomFor (s.sess r).torrent.infoHash st := by
      have hguard := hok.2 t ht
      cases t with
      | recheck | relocate => exact hguard _ hw
      | _ => cases hw
    have hlt := ((hwf.tasks t (mem_of_getElem? ht)).sessions r hr).1
    refine hmove hp.frame.restoring fun hcap => hcap.wake hroom hp.frame.options ?_
    intro i st' hi hact
    rcases hp.active hi hact with hold | ⟨w, ⟨hcell, -, hwst⟩, hown, rfl⟩
    · exact .inl hold
    · have hown' : s.cellOf i = some (s.sess r).ctl := hcell ▸ hown
      have hid := (hwf.cellOf_infoHash hown').symm.trans (hwf.sess r hlt).2
      exact .inr ⟨hid, hwst.resolve_left (by rw [hact]; decide)⟩
  | restored on =>
    cases on with
    | true => exact .inl rfl
    | false => exact .inr (.inr (evaluateQueue_capped rfl hwf'.cellsApart hu hslow))
  | @removed id d _ =>
    cases hres : s.restoring with
    | true => exact .inl hres
    | false =>
      exact .inr (.inr (evaluateQueue_capped hres hwf'.cellsApart (takeOut_unforced hu id d) hslow))
  | @failed n io t p msg s₁ ht _ hp =>
    refine hmove hp.frame.restoring fun hcap => hcap.tame hp.frame.options fun i st hi hact => ?_
    have hi' := promotionFailed_active hi hact
    exact (hp.active hi' hact).resolve_right fun hw => hw.choose_spec.1
  | @finished n io t c r s₁ ht hadd hp hwf₁ hcon =>
    by_cases hpaused : s₁.startsPaused c
    case neg =>
      refine .inr (.inl (List.any_eq_true.2 ⟨_, mem_append_right _ mem_cons_self, ?_⟩))
      simp [Task.inserting, hpaused]
    case pos =>
      refine hmove hp.frame.restoring fun hcap =>
        hcap.tame hp.frame.options fun i st hi hact => ?_
      have hi' := initTorrent_active hpaused hi hact
      exact (hp.active hi' hact).resolve_right fun hw => hw.choose_spec.1
  | inserted ht => cases hpoll _ ht
  | @registered n io c ht hio =>
    have hroom : s.roomFor c.infoHash (pendingInitial c) := hok.2 _ ht hio
    exact hmove rfl fun hcap => hcap.wake hroom rfl fun i st hi _ =>
      registerPending_stateOf (hwf.without n) c hi

/-- The limits on active torrents hold in every state in which no torrent is being restored or
added, if no torrent is force-started and those that become active without an evaluation of the
queue do so while there is room. -/
theorem limits_kept (x : Ext) (options : SessionOptions) (categories : Categories)
    (resumeFiles : ResumeFiles) (as : List (Env × Act)) (s : Session)
    (hslow : options.dontCountSlow = false)
    (hrun : Run (Session.step x) Roomy (Session.new options categories resumeFiles) as s)
    (hrestoring : s.restoring = false) (hidle : ∀ t ∈ s.tasks, t.inserting = false) :
    Within options (s.countState (·.downloads) none) (s.countState (·.uploads) none) := by
  obtain ⟨-, hopt, hb⟩ := hrun.inv (I := fun s => s.Wf x ∧ s.options = options ∧ s.Bounded)
    (fun ⟨hwf, hopt, hb⟩ hok h =>
      ⟨hwf.stepCase (step_cases h), (step_cases h).options.trans hopt,
        hb.step hwf hok (by rw [hopt]; exact hslow) h⟩)
    ⟨new_wf .., rfl, .inr (.inr ⟨.inr (Nat.zero_le _), .inr (Nat.zero_le _), .inr (Nat.zero_le _)⟩)⟩
  rcases hb with hb | hb | hb
  · rw [hrestoring] at hb
    cases hb
  · obtain ⟨t, ht, hi⟩ := List.any_eq_true.1 hb
    rw [hidle t ht] at hi
    cases hi
  · rw [← hopt]
    exact hb

def addSecond : List (Env × Act) :=
  [({}, .addMeta 1 (oneByteFile 1) { outputDir := some (ascii "b") } {}), ({}, .poll 1 {}),
    ({}, .poll 1 {})]

/-- A session for one download at a time. -/
def single : Session := Session.new { maxActiveDownloads := 1 } ∅ ∅

/-- The second file is checked while the first is paused. -/
def recheckPaused : List (Env × Act) :=
  [({}, .op (.pause 0)), ({}, .op (.recheck 1)), ({}, .poll 2 {})]

theorem limits_kept_recheck :
    ∃ s, Run (Session.step noExt) Roomy single (addOneByte 0 "a" ++ addSecond ++ recheckPaused) s ∧
      s.stateOf 1 = some .downloading ∧
      Within { maxActiveDownloads := 1 } (s.countState (·.downloads) none)
        (s.countState (·.uploads) none) :=
  have hrun := Run.of_isSome
  ⟨_, hrun, by decide +kernel,
    limits_kept noExt _ ∅ ∅ _ _ rfl hrun (by decide +kernel) (by decide +kernel)⟩

/-- Without room: the second of two files, queued behind the first, is checked and then downloads
too, and so do two magnets. -/
theorem limits_exceeded : (∃ s, Run (Session.step noExt) anyStep single
        (addOneByte 0 "a" ++ addSecond ++ [(({} : Env), .op (.recheck 1)), ({}, .poll 2 {})]) s ∧
      s.restoring = false ∧ (∀ t ∈ s.tasks, t.inserting = false) ∧ s.Unforced ∧
      s.countState (·.downloads) none = 2) ∧
    ∃ s, Run (Session.step noExt) anyStep single
        [({}, .addMagnet 0 ⟨0, none, [], [], []⟩ {}), ({}, .poll 0 {}),
          ({}, .addMagnet 1 ⟨1, none, [], [], []⟩ {}), ({}, .poll 1 {})] s ∧
      s.restoring = false ∧ (∀ t ∈ s.tasks, t.inserting = false) ∧ s.Unforced ∧
      s.countState (·.downloads) none = 2 := by
  refine ⟨⟨_, .of_isSome, ?_⟩, ⟨_, .of_isSome, ?_⟩⟩
  · decide +kernel
  · decide +kernel

end Session

end BitRev
