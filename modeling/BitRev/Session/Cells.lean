import BitRev.Session.State

/-!
# State cells at the grain of their locks

`torrent_state` and `download_state` are two cells with a lock each. `set_torrent_state`,
`apply_pending_pause`, `apply_pending_resume`, `evaluate_queue` and a promotion store a state
(`write`) and afterwards the download state that follows from it (`sync`); calls of other threads
may come in between. A failed promotion (`fail`) and the tick (`seed`) store a state only.

`CellRun` says that cells change by such steps and no two calls overlap; the steps of a session,
which end no call in the middle, change them so (`Session.step_cells`).
-/

namespace BitRev

open List

structure Cells where
  ctl : Nat → Ctl
  /-- The calls that have stored a state and not yet the download state, the oldest first. -/
  syncing : List (Nat × TorrentState) := []

inductive CellAct where
  /-- New cells, before anyone else sees them. -/
  | make (c : Nat) (infoHash : Digest) (st : TorrentState)
  | write (c : Nat) (st : TorrentState)
  | sync (n : Nat)
  | fail (c : Nat) (message : String)
  | seed (c : Nat)

namespace Cells

def store (m : Cells) (c : Nat) (k : Ctl) : Cells := { m with ctl := Function.update m.ctl c k }

def step (m : Cells) : CellAct → Option Cells
  | .make c infoHash st =>
    if ∀ y ∈ m.syncing, y.1 ≠ c then some (m.store c ⟨infoHash, st, syncDownloadState st⟩)
    else none
  | .write c st =>
    some { m.store c { m.ctl c with torrentState := st } with syncing := m.syncing ++ [(c, st)] }
  | .sync n =>
    (m.syncing[n]?).map fun y =>
      { m.store y.1 { m.ctl y.1 with downloadState := syncDownloadState y.2 } with
        syncing := m.syncing.eraseIdx n }
  | .fail c message => some (m.store c { m.ctl c with torrentState := .error message })
  | .seed c =>
    if (m.ctl c).torrentState = .downloading then
      some (m.store c { m.ctl c with torrentState := .seeding })
    else none

end Cells

/-- No call but the one that is in progress takes a step. -/
def CellAct.Alone (m : Cells) (a : CellAct) : Prop := m.syncing = [] ∨ a = .sync 0

/-- The cells change as the calls of one thread change them. -/
def CellRun (ctl ctl' : Nat → Ctl) : Prop :=
  ∃ as, Run Cells.step (fun m a => a.Alone m) ⟨ctl, []⟩ as ⟨ctl', []⟩

namespace CellRun

variable {ctl ctl₁ ctl' : Nat → Ctl}

lemma rfl : CellRun ctl ctl := ⟨[], .nil _⟩

lemma trans (h : CellRun ctl ctl₁) (h' : CellRun ctl₁ ctl') : CellRun ctl ctl' := by
  obtain ⟨as, hrun⟩ := h
  obtain ⟨as', hrun'⟩ := h'
  exact ⟨as ++ as', hrun.append hrun'⟩

variable (g : Signals)

/-- A state is stored, and then the download state. -/
lemma setState (c : Nat) (id : TorrentId) (st : TorrentState) :
    CellRun g.ctl (g.setState c id st).ctl := by
  refine ⟨[.write c st, .sync 0], .cons (.inl (Eq.refl _)) (Eq.refl _)
    (.cons (.inr (Eq.refl _)) ?_ (.nil _))⟩
  simp [Cells.step, Cells.store, Signals.setState]

lemma fail (c : Nat) (message : String) : CellRun g.ctl (g.writeState c (.error message)).ctl :=
  ⟨[.fail c message], .cons (.inl (Eq.refl _)) (Eq.refl _) (.nil _)⟩

lemma seed {c : Nat} (h : (g.ctl c).torrentState = .downloading) :
    CellRun g.ctl (g.writeState c .seeding).ctl :=
  ⟨[.seed c], .cons (.inl (Eq.refl _)) (if_pos h) (.nil _)⟩

lemma make (ctl : Nat → Ctl) (c : Nat) (infoHash : Digest) (st : TorrentState) :
    CellRun ctl (Function.update ctl c ⟨infoHash, st, syncDownloadState st⟩) := by
  refine ⟨[.make c infoHash st], .cons (.inl (Eq.refl _)) ?_ (.nil _)⟩
  simp [Cells.step, Cells.store]

end CellRun

/-! ## Agreement -/

lemma syncDownloadState_iff {st : TorrentState} :
    syncDownloadState st = .downloading ↔ st.transferEnabled := by
  unfold syncDownloadState
  split <;> simp_all

namespace Cells

/-- The download state the cells `c` get if the calls in progress end in their order. -/
def due (m : Cells) (c : Nat) : DownloadState :=
  match (m.syncing.filter (·.1 = c)).getLast? with
  | some y => syncDownloadState y.2
  | none => (m.ctl c).downloadState

lemma due_idle {m : Cells} {c : Nat} (h : ∀ y ∈ m.syncing, y.1 ≠ c) :
    m.due c = (m.ctl c).downloadState := by
  have hnil : m.syncing.filter (·.1 = c) = [] :=
    filter_eq_nil_iff.2 fun y hy => by simpa using h y hy
  simp [due, hnil]

end Cells

/-- The call that was the last to store the state of a torrent stores its download state last, or
those that are still to store it store the same. -/
def Cells.InOrder (m : Cells) (n : Nat) : Prop :=
  ∀ y ∈ m.syncing[n]?, (∃ z ∈ m.syncing.drop (n + 1), z.1 = y.1) ∨
    ∀ z ∈ m.syncing.take n, z.1 = y.1 → syncDownloadState z.2 = syncDownloadState y.2

/-- The calls on one torrent leave the download state of the last one, and a promotion does not fail
while the download state is downloading, or will be. -/
def CellAct.Ordered (m : Cells) : CellAct → Prop
  | .sync n => m.InOrder n
  | .fail c _ => m.due c ≠ .downloading
  | _ => True

instance (m : Cells) (a : CellAct) : Decidable (a.Ordered m) := by
  rcases a <;> unfold CellAct.Ordered <;> (try unfold Cells.InOrder) <;> infer_instance

namespace Cells

variable {m m' : Cells} {c : Nat}

def Due (m : Cells) : Prop :=
  ∀ c, m.due c = .downloading ↔ (m.ctl c).torrentState.transferEnabled

lemma store_ctl (m : Cells) (c c' : Nat) (k : Ctl) :
    (m.store c k).ctl c' = if c' = c then k else m.ctl c' :=
  Function.update_apply ..

lemma due_store (m : Cells) {c c' : Nat} {k : Ctl}
    (h : c' = c → k.downloadState = (m.ctl c).downloadState) : (m.store c k).due c' = m.due c' := by
  have hctl : ((m.store c k).ctl c').downloadState = (m.ctl c').downloadState := by
    rw [store_ctl]
    split_ifs with heq
    · rw [h heq, heq]
    · rfl
  simp only [due, hctl]
  rfl

lemma due_state (m : Cells) (c c' : Nat) (st : TorrentState) :
    (m.store c { m.ctl c with torrentState := st }).due c' = m.due c' :=
  due_store m fun _ => rfl

lemma due_write (m : Cells) (c c' : Nat) (k : Ctl) (st : TorrentState) :
    { m.store c k with syncing := m.syncing ++ [(c, st)] }.due c' =
      if c' = c then syncDownloadState st else m.due c' := by
  simp only [due, store, filter_append]
  rcases eq_or_ne c' c with rfl | h
  · simp
  · simp [h.symm, h]

lemma due_sync {n : Nat} {y : Nat × TorrentState} (hy : m.syncing[n]? = some y)
    (hord : m.InOrder n) (c : Nat) :
    { m.store y.1 { m.ctl y.1 with downloadState := syncDownloadState y.2 } with
      syncing := m.syncing.eraseIdx n }.due c = m.due c := by
  obtain ⟨hn, hget⟩ := List.getElem?_eq_some_iff.1 hy
  have hsplit : m.syncing = m.syncing.take n ++ y :: m.syncing.drop (n + 1) := by
    rw [← hget, getElem_cons_drop, take_append_drop]
  simp only [due, store_ctl, eraseIdx_eq_take_drop_succ]
  conv_rhs => rw [hsplit]
  rcases eq_or_ne c y.1 with rfl | hne
  · simp only [filter_append, filter_cons_of_pos, decide_true, getLast?_append, getLast?_cons,
      if_true]
    cases hlater : ((m.syncing.drop (n + 1)).filter (·.1 = y.1)).getLast? with
    | some z => rfl
    | none =>
      have hnil := filter_eq_nil_iff.1 (getLast?_eq_none_iff.1 hlater)
      have hsame := (hord y hy).resolve_left fun ⟨z, hz, heq⟩ => hnil z hz (decide_eq_true heq)
      cases hbefore : ((m.syncing.take n).filter (·.1 = y.1)).getLast? with
      | none => rfl
      | some z =>
        obtain ⟨hz, heq⟩ := mem_filter.1 (mem_of_getLast? hbefore)
        exact hsame z hz (of_decide_eq_true heq)
  · simp [filter_append, hne.symm, hne]

/-- `Due`, but for the states in `P`. -/
def DueBut (P : TorrentState → Prop) (m : Cells) : Prop :=
  ∀ c, P (m.ctl c).torrentState ∨
    (m.due c = .downloading ↔ (m.ctl c).torrentState.transferEnabled)

lemma DueBut.step {P : TorrentState → Prop} (hP : ¬P .downloading) (h : m.DueBut P) {a : CellAct}
    (hsync : ∀ n, a = .sync n → m.InOrder n)
    (hfail : ∀ c message, a = .fail c message → P (.error message) ∨ m.due c ≠ .downloading)
    (hs : m.step a = some m') : m'.DueBut P := by
  intro c'
  cases a with
  | make c infoHash st =>
    simp only [Cells.step] at hs
    split at hs <;> cases hs
    rename_i hfree
    rw [store_ctl]
    split
    · rename_i heq
      subst heq
      rw [due_idle (m := m.store c' _) hfree, store_ctl, if_pos rfl]
      exact .inr syncDownloadState_iff
    · rename_i hne
      rw [due_store m fun heq => absurd heq hne]
      exact h c'
  | write c st =>
    cases hs
    simp only [due_write, store_ctl]
    split
    · exact .inr syncDownloadState_iff
    · exact h c'
  | sync n =>
    obtain ⟨y, hy, rfl⟩ := Option.map_eq_some_iff.1 hs
    rw [due_sync hy (hsync n rfl)]
    simp only [store_ctl]
    split_ifs with heq
    · exact heq ▸ h c'
    · exact h c'
  | fail c message =>
    cases hs
    rw [due_state, store_ctl]
    split_ifs with heq
    · subst heq
      exact (hfail c' message rfl).imp_right fun hne => ⟨fun hd => absurd hd hne, nofun⟩
    · exact h c'
  | seed c =>
    simp only [Cells.step] at hs
    split at hs <;> cases hs
    rename_i hst
    rw [due_state, store_ctl]
    split_ifs with heq
    · subst heq
      have hold := (h c').resolve_left (hst ▸ hP)
      exact .inr ⟨fun _ => rfl, fun _ => hold.2 (by rw [hst]; rfl)⟩
    · exact h c'

lemma Due.step (h : m.Due) {a : CellAct} (ha : a.Ordered m) (hs : m.step a = some m') :
    m'.Due := by
  have hdue : m.DueBut fun _ => False := fun c => .inr (h c)
  refine fun c => (hdue.step id ?_ ?_ hs c).resolve_left id
  · rintro n rfl
    exact ha
  · rintro c message rfl
    exact .inr ha

end Cells

end BitRev
