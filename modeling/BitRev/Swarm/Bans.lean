import BitRev.Peer.Download
import BitRev.Swarm.Pex

/-!
# Bans

The peers of one torrent (`PeerStates`, `peer_state.rs`) at the grain of single accesses to its
tables, where `Swarm/Pex` has one step for each call: tasks on several threads can come between each
other there. Of an entry only the connection is kept. The calls are recording hash failures
(`record_hash_failure`, `ban`), and the ways of a peer into the live-peer table (`add_if_not_seen`,
`accept_incoming_stream`, `try_spawn_peer` with `insert_live`) and out of it (`PeerSlotGuard`).

An address is banned with its port. Times are in milliseconds, and the clock does not go back.
-/

namespace BitRev

open List Option AList

inductive BanCheck where
  /-- In `accept_incoming_stream`, or in `add_if_not_seen`. -/
  | early
  /-- In `try_spawn_peer`. -/
  | spawn
  /-- In `insert_live`. -/
  | insert
  deriving DecidableEq

/-- What an attempt to connect does next. -/
inductive AttemptStage where
  /-- `is_banned` drops the bans that are over. -/
  | purging (check : BanCheck)
  /-- `is_banned` looks for the peer. -/
  | looking (check : BanCheck)
  /-- `add_if_not_seen` makes an entry. -/
  | noting
  /-- The handshake of an incoming peer is answered. -/
  | replying
  /-- `try_spawn_peer` compares the number of connections, and looks for an entry. -/
  | counting
  /-- `try_spawn_peer` compares the number of entries. -/
  | capping (alreadySeen : Bool)
  /-- `try_spawn_peer` asks the IP filter. -/
  | filtering
  /-- `insert_live` makes the entry. -/
  | inserting
  | live
  | refused
  | closed
  deriving DecidableEq

structure Attempt where
  peer : PeerAddr
  outgoing : Bool
  stage : AttemptStage

/-- What the recording of a hash failure does next. -/
inductive FailureStage where
  /-- `increment_failures`. -/
  | incrementing
  /-- `ban` reads the clock. -/
  | timing
  /-- `ban` stores until when, given what it has read. -/
  | storing (now : Nat)
  /-- `ban` looks for the connection of the peer. -/
  | telling
  | done (banned : Bool)
  deriving DecidableEq

structure Failure where
  peer : PeerAddr
  soleContributor : Bool
  stage : FailureStage
  deriving DecidableEq

structure PeerTables where
  maxPeersPerTorrent : Nat
  now : Nat := 0
  /-- The peers, with the connection that has `writer_tx`. -/
  states : AList fun _ : PeerAddr => Option Nat := ∅
  hashFailures : AList fun _ : PeerAddr => Nat := ∅
  /-- Until when a peer is banned. -/
  banned : AList fun _ : PeerAddr => Nat := ∅
  attempts : List Attempt := []
  failures : List Failure := []
  /-- The connections that were sent `Disconnect`. -/
  told : List Nat := []

inductive TablesAct where
  | tick (ms : Nat)
  /-- `add_peers` comes to an address. -/
  | deliver (peer : PeerAddr)
  /-- `connect_peer` or `process_peers` comes to an address. -/
  | connect (peer : PeerAddr)
  /-- The handshake of an incoming peer was read. -/
  | accept (peer : PeerAddr)
  /-- An attempt makes its next step; `ok` is the outcome of one that is not about the tables. -/
  | go (i : Nat) (ok : Bool)
  /-- A connection ends. -/
  | close (i : Nat)
  /-- `record_hash_failure` is called. -/
  | failure (peer : PeerAddr) (soleContributor : Bool)
  /-- The recording of a hash failure makes its next step. -/
  | record (j : Nat)

namespace PeerTables

section

variable (s : PeerTables)

def purgeExpiredBans : PeerTables :=
  { s with banned := Assoc.retain (fun _ until' => s.now < until') s.banned }

def cleared (outgoing : Bool) : BanCheck → AttemptStage
  | .early => if outgoing then .noting else .replying
  | .spawn => .filtering
  | .insert => .inserting

def moveTo (i : Nat) (a : Attempt) (stage : AttemptStage) : PeerTables :=
  { s with attempts := s.attempts.set i { a with stage } }

/-- An attempt makes its next step. -/
def go (i : Nat) (a : Attempt) (ok : Bool) : Option PeerTables :=
  match a.stage with
  | .purging check => some (s.purgeExpiredBans.moveTo i a (.looking check))
  | .looking check =>
    some (s.moveTo i a (if a.peer ∈ s.banned then .refused else cleared a.outgoing check))
  | .noting =>
    if a.peer ∈ s.states then some (s.moveTo i a .refused)
    else some (moveTo { s with states := s.states.insert a.peer none } i a .counting)
  | .replying => some (s.moveTo i a (if ok then .counting else .refused))
  | .counting => some (s.moveTo i a (if ok then .capping (a.peer ∈ s.states) else .refused))
  | .capping alreadySeen =>
    let full := !alreadySeen && s.maxPeersPerTorrent ≤ s.states.entries.length
    some (s.moveTo i a (if full then .refused else .purging .spawn))
  | .filtering => some (s.moveTo i a (if ok then .purging .insert else .refused))
  | .inserting =>
    match s.states.lookup a.peer with
    | some (some _) => some (s.moveTo i a .refused)
    | _ => some (moveTo { s with states := s.states.insert a.peer (some i) } i a .live)
  | .live | .refused | .closed => none

/-- `PeerSlotGuard`: a connection ends. -/
def close (i : Nat) (a : Attempt) : Option PeerTables :=
  if a.stage = .live then some (moveTo { s with states := s.states.erase a.peer } i a .closed)
  else none

/-- The recording `j` of a hash failure goes on with a stage. -/
def goOn (j : Nat) (f : Failure) (stage : FailureStage) : PeerTables :=
  { s with failures := s.failures.set j { f with stage } }

/-- The connections that `ban` finds for a peer. -/
def writerOf (peer : PeerAddr) : List Nat :=
  ((s.states.lookup peer).join).toList

/-- The recording of a hash failure makes its next step. -/
def record (j : Nat) (f : Failure) : Option PeerTables :=
  match f.stage with
  | .incrementing =>
    let count := min ((s.hashFailures.lookup f.peer).getD 0 + 1) (2 ^ 32 - 1)
    some (goOn { s with hashFailures := s.hashFailures.insert f.peer count } j f
      (if f.soleContributor || hashFailureBanThreshold ≤ count then .timing else .done false))
  | .timing => some (s.goOn j f (.storing s.now))
  | .storing now =>
    some (goOn { s with banned := s.banned.insert f.peer (now + PeerStates.banTtl) } j f .telling)
  | .telling => some (goOn { s with told := s.told ++ s.writerOf f.peer } j f (.done true))
  | .done _ => none

def begin (peer : PeerAddr) (outgoing : Bool) (stage : AttemptStage) : PeerTables :=
  { s with attempts := s.attempts ++ [⟨peer, outgoing, stage⟩] }

def step : TablesAct → Option PeerTables
  | .tick ms => some { s with now := s.now + ms }
  | .deliver peer => some (s.begin peer true (.purging .early))
  | .connect peer => some (s.begin peer true .counting)
  | .accept peer => some (s.begin peer false (.purging .early))
  | .go i ok => (s.attempts[i]?).bind fun a => s.go i a ok
  | .close i => (s.attempts[i]?).bind fun a => s.close i a
  | .failure peer soleContributor =>
    some { s with failures := s.failures ++ [⟨peer, soleContributor, .incrementing⟩] }
  | .record j => (s.failures[j]?).bind fun f => s.record j f

/-! ## Attempts -/

def Live (peer : PeerAddr) (i : Nat) : Prop :=
  ∃ a ∈ s.attempts[i]?, a.peer = peer ∧ a.stage = .live

/-- The attempt `i` to connect with a peer has passed the last check for bans. -/
def Passed (peer : PeerAddr) (i : Nat) : Prop :=
  ∃ a ∈ s.attempts[i]?, a.peer = peer ∧ (a.stage = .inserting ∨ a.stage = .live ∨ a.stage = .closed)

end

instance (s : PeerTables) (peer : PeerAddr) (i : Nat) : Decidable (s.Live peer i) := by
  unfold Live
  infer_instance

instance (s : PeerTables) (peer : PeerAddr) (i : Nat) : Decidable (s.Passed peer i) := by
  unfold Passed
  infer_instance

/-- What a step of the attempt `i` can do. -/
inductive GoCase (s : PeerTables) (i : Nat) (a : Attempt) : PeerTables → Prop
  | purge (check : BanCheck) : GoCase s i a (s.purgeExpiredBans.moveTo i a (.looking check))
  | move {stage : AttemptStage} (hlive : stage ≠ .live) (hclosed : stage ≠ .closed)
      (hpassed : stage = .inserting → a.peer ∉ s.banned) : GoCase s i a (s.moveTo i a stage)
  | note (hnew : a.peer ∉ s.states) :
      GoCase s i a (moveTo { s with states := s.states.insert a.peer none } i a .counting)
  | insert (hstage : a.stage = .inserting) (hfree : s.writerOf a.peer = []) :
      GoCase s i a (moveTo { s with states := s.states.insert a.peer (some i) } i a .live)

lemma cleared_open (outgoing : Bool) (check : BanCheck) :
    cleared outgoing check ≠ .live ∧ cleared outgoing check ≠ .closed := by
  cases outgoing <;> cases check <;> decide

section

variable {s s' : PeerTables} {i : Nat} {a : Attempt} {ok : Bool} {f : Failure} {j k t : Nat}
  {act : TablesAct} {stage : AttemptStage} {peer : PeerAddr}

lemma go_cases (h : s.go i a ok = some s') :
    (a.stage ≠ .live ∧ a.stage ≠ .closed) ∧ GoCase s i a s' := by
  unfold go at h
  split at h
  · rename_i check hst
    cases h
    exact ⟨by simp [hst], .purge check⟩
  · rename_i check hst
    cases h
    refine ⟨by simp [hst], ?_⟩
    split_ifs with hb
    · exact .move (by simp) (by simp) (by simp)
    · exact .move (cleared_open _ _).1 (cleared_open _ _).2 fun _ => hb
  · rename_i hst
    split_ifs at h with hnew
    · cases h
      exact ⟨by simp [hst], .move (by simp) (by simp) (by simp)⟩
    · cases h
      exact ⟨by simp [hst], .note hnew⟩
  case h_4 hst | h_5 hst | h_6 hst | h_7 hst =>
    cases h
    refine ⟨by simp [hst], ?_⟩
    split <;> exact .move (by simp) (by simp) (by simp)
  · rename_i hst
    split at h
    · cases h
      exact ⟨by simp [hst], .move (by simp) (by simp) (by simp)⟩
    · rename_i hfree
      cases h
      refine ⟨by simp [hst], .insert hst ?_⟩
      unfold writerOf
      cases hl : s.states.lookup a.peer with
      | none => rfl
      | some w =>
        cases w with
        | none => rfl
        | some c => exact absurd hl (hfree c)
  all_goals cases h

inductive StepCase (s : PeerTables) : PeerTables → Prop
  /-- The attempts are not touched, but bans may be stored. -/
  | other {s' : PeerTables} (hstates : s'.states = s.states) (hattempts : s'.attempts = s.attempts) :
      StepCase s s'
  | begin (peer : PeerAddr) (outgoing : Bool) {stage : AttemptStage}
      (hstage : stage = .counting ∨ stage = .purging .early) :
      StepCase s (s.begin peer outgoing stage)
  | go {i : Nat} {a : Attempt} {s' : PeerTables} (ha : s.attempts[i]? = some a)
      (hopen : a.stage ≠ .live ∧ a.stage ≠ .closed) (h : GoCase s i a s') : StepCase s s'
  | close {i : Nat} {a : Attempt} (ha : s.attempts[i]? = some a) (hlive : a.stage = .live) :
      StepCase s (moveTo { s with states := s.states.erase a.peer } i a .closed)

lemma record_attempts (h : s.record j f = some s') :
    s'.states = s.states ∧ s'.attempts = s.attempts := by
  unfold record at h
  split at h <;> cases h <;> exact ⟨rfl, rfl⟩

lemma step_cases (h : s.step act = some s') : StepCase s s' := by
  cases act with
  | tick ms | failure peer soleContributor =>
    cases h
    exact .other rfl rfl
  | deliver peer =>
    cases h
    exact .begin peer true (.inr rfl)
  | connect peer =>
    cases h
    exact .begin peer true (.inl rfl)
  | accept peer =>
    cases h
    exact .begin peer false (.inr rfl)
  | go i ok =>
    obtain ⟨a, ha, h⟩ := bind_eq_some_iff.1 h
    obtain ⟨hopen, hcase⟩ := go_cases h
    exact .go ha hopen hcase
  | close i =>
    obtain ⟨a, ha, h⟩ := bind_eq_some_iff.1 h
    obtain ⟨hlive, h⟩ := ite_none_right_eq_some.1 h
    cases h
    exact .close ha hlive
  | record j =>
    obtain ⟨f, -, h⟩ := bind_eq_some_iff.1 h
    obtain ⟨hstates, hattempts⟩ := record_attempts h
    exact .other hstates hattempts

/-! ## Live connections -/

lemma moveTo_some {b : Attempt} (h : (s.moveTo i a stage).attempts[k]? = some b) :
    (k = i ∧ b = { a with stage }) ∨ (k ≠ i ∧ s.attempts[k]? = some b) := by
  rcases eq_or_ne k i with rfl | hne
  · rw [moveTo, getElem?_set_self'] at h
    obtain ⟨-, -, rfl⟩ := map_eq_some_iff.1 h
    exact .inl ⟨rfl, rfl⟩
  · rw [moveTo, getElem?_set_ne hne.symm] at h
    exact .inr ⟨hne, h⟩

lemma begin_some {outgoing : Bool}
    {b : Attempt} (h : (s.begin peer outgoing stage).attempts[k]? = some b) :
    s.attempts[k]? = some b ∨ b = ⟨peer, outgoing, stage⟩ := by
  rcases lt_or_ge k s.attempts.length with hlt | hge
  · exact .inl (by rwa [begin, getElem?_append_left hlt] at h)
  · rw [begin, getElem?_append_right hge] at h
    exact .inr (mem_singleton.1 (mem_of_getElem? h))

/-- A live connection is the one in the table. -/
def Wf (s : PeerTables) : Prop :=
  ∀ i a, s.attempts[i]? = some a → a.stage = .live → s.states.lookup a.peer = some (some i)

lemma Wf.writerOf (hwf : s.Wf) (h : s.Live peer i) : i ∈ s.writerOf peer := by
  obtain ⟨a, ha, rfl, hlive⟩ := h
  simp [PeerTables.writerOf, hwf i a ha hlive]

lemma Wf.goCase (hwf : s.Wf) (h : GoCase s i a s') : s'.Wf := by
  cases h with
  | purge check =>
    intro k b hk hlive
    rcases moveTo_some hk with ⟨rfl, rfl⟩ | ⟨-, hk⟩
    · cases hlive
    · exact hwf k b hk hlive
  | move hl hc hp =>
    intro k b hk hlive
    rcases moveTo_some hk with ⟨rfl, rfl⟩ | ⟨-, hk⟩
    · exact absurd hlive hl
    · exact hwf k b hk hlive
  | note hnew =>
    intro k b hk hlive
    rcases moveTo_some hk with ⟨rfl, rfl⟩ | ⟨-, hk⟩
    · cases hlive
    have hin := hwf k b hk hlive
    have hne : b.peer ≠ a.peer := by
      intro heq
      exact hnew (heq ▸ lookup_isSome.1 (by rw [hin]; rfl))
    exact (lookup_insert_ne hne).trans hin
  | insert hst hfree =>
    intro k b hk hlive
    rcases moveTo_some hk with ⟨rfl, rfl⟩ | ⟨-, hk⟩
    · exact lookup_insert _
    have hin := hwf k b hk hlive
    -- no connection of the peer was in the table
    have hne : b.peer ≠ a.peer := by
      intro heq
      rw [heq] at hin
      simp [PeerTables.writerOf, hin] at hfree
    exact (lookup_insert_ne hne).trans hin

lemma Wf.step (hwf : s.Wf) (h : StepCase s s') : s'.Wf := by
  cases h with
  | other hstates hattempts =>
    intro k b hk hlive
    rw [hstates]
    exact hwf k b (hattempts ▸ hk) hlive
  | begin peer outgoing hstage =>
    intro k b hk hlive
    rcases begin_some hk with hk | rfl
    · exact hwf k b hk hlive
    · rcases hstage with rfl | rfl <;> cases hlive
  | go ha hopen h => exact hwf.goCase h
  | @close i a ha hl =>
    intro k b hk hlive
    rcases moveTo_some hk with ⟨rfl, rfl⟩ | ⟨hki, hk⟩
    · cases hlive
    have hin := hwf k b hk hlive
    have hne : b.peer ≠ a.peer := by
      intro heq
      rw [heq, hwf i a ha hl] at hin
      exact hki (by simpa using hin.symm)
    exact (lookup_erase_ne hne).trans hin

/-- An attempt passes the last check for bans only while no ban is stored. -/
lemma passed_step (h : StepCase s s') (hp : s'.Passed peer k) :
    s.Passed peer k ∨ peer ∉ s.banned := by
  obtain ⟨b, hk, rfl, hst⟩ := hp
  cases h with
  | other hstates hattempts => exact .inl ⟨b, hattempts ▸ hk, rfl, hst⟩
  | begin peer outgoing hstage =>
    rcases begin_some hk with hk | rfl
    · exact .inl ⟨b, hk, rfl, hst⟩
    · rcases hstage with rfl | rfl <;> simp at hst
  | @go i a s' ha hopen h =>
    cases h with
    | purge check | note hnew =>
      rcases moveTo_some hk with ⟨rfl, rfl⟩ | ⟨-, hk⟩
      · simp at hst
      · exact .inl ⟨b, hk, rfl, hst⟩
    | move hl hc hclear =>
      rcases moveTo_some hk with ⟨rfl, rfl⟩ | ⟨-, hk⟩
      · rcases hst with hst | hst | hst
        · exact .inr (hclear hst)
        · exact absurd hst hl
        · exact absurd hst hc
      · exact .inl ⟨b, hk, rfl, hst⟩
    | insert hins hfree =>
      rcases moveTo_some hk with ⟨rfl, rfl⟩ | ⟨-, hk⟩
      · exact .inl ⟨a, ha, rfl, .inl hins⟩
      · exact .inl ⟨b, hk, rfl, hst⟩
  | @close i a ha hl =>
    rcases moveTo_some hk with ⟨rfl, rfl⟩ | ⟨-, hk⟩
    · exact .inl ⟨a, ha, rfl, .inr (.inl hl)⟩
    · exact .inl ⟨b, hk, rfl, hst⟩

def Been (s : PeerTables) (peer : PeerAddr) (i : Nat) : Prop :=
  ∃ a ∈ s.attempts[i]?, a.peer = peer ∧ (a.stage = .live ∨ a.stage = .closed)

lemma getElem?_moveTo_ne (h : k ≠ i) : (s.moveTo i a stage).attempts[k]? = s.attempts[k]? :=
  getElem?_set_ne h.symm

lemma been_step (h : StepCase s s') (hk : s.Been peer k) :
    s'.Been peer k ∧ (s'.Live peer k → s.Live peer k) := by
  obtain ⟨b, hb, rfl, hst⟩ := hk
  have hsame : s'.attempts[k]? = some b →
      s'.Been b.peer k ∧ (s'.Live b.peer k → s.Live b.peer k) := by
    intro hb'
    refine ⟨⟨b, hb', rfl, hst⟩, ?_⟩
    rintro ⟨c, hc, hpeer, hlive⟩
    rw [hb'] at hc
    cases hc
    exact ⟨b, hb, rfl, hlive⟩
  cases h with
  | other hstates hattempts => exact hsame (hattempts ▸ hb)
  | begin peer outgoing hstage =>
    exact hsame (by rwa [begin, getElem?_append_left (List.getElem?_eq_some_iff.1 hb).1])
  | @go i a s' ha hopen h =>
    -- a connection that was live makes no such step
    have hki : k ≠ i := by
      rintro rfl
      cases ha.symm.trans hb
      exact hst.elim hopen.1 hopen.2
    refine hsame ?_
    cases h <;> exact (getElem?_moveTo_ne hki).trans hb
  | @close i a ha hl =>
    rcases eq_or_ne k i with rfl | hki
    · obtain rfl : a = b := some.inj (ha.symm.trans hb)
      refine ⟨⟨{ a with stage := .closed }, ?_, rfl, .inr rfl⟩, fun _ => ⟨a, ha, rfl, hl⟩⟩
      simp [moveTo, getElem?_set_self (List.getElem?_eq_some_iff.1 ha).1]
    · exact hsame ((getElem?_moveTo_ne hki).trans hb)

/-! ## Stored bans -/

/-- The step stores a ban of the peer from an earlier reading of the clock. -/
def storesEarlier (s : PeerTables) (peer : PeerAddr) (now : Nat) : TablesAct → Bool
  | .record j =>
    (s.failures[j]?).any fun f =>
      f.peer = peer &&
        match f.stage with
        | .storing now' => now' < now
        | _ => false
  | _ => false

def BannedUntil (s : PeerTables) (peer : PeerAddr) (t : Nat) : Prop :=
  ∃ u, s.banned.lookup peer = some u ∧ t ≤ u

lemma BannedUntil.mem (h : s.BannedUntil peer t) : peer ∈ s.banned := by
  obtain ⟨u, hu, -⟩ := h
  exact lookup_isSome.1 (by rw [hu]; rfl)

lemma BannedUntil.purge (h : s.BannedUntil peer t)
    (hnow : s.now < t) : s.purgeExpiredBans.BannedUntil peer t := by
  obtain ⟨u, hu, htu⟩ := h
  refine ⟨u, Assoc.lookup_retain.2 ⟨hu, ?_⟩, htu⟩
  exact decide_eq_true (Nat.lt_of_lt_of_le hnow htu)

lemma BannedUntil.store {peer peer' : PeerAddr} {t u : Nat} (h : s.BannedUntil peer t)
    (hu : peer' = peer → t ≤ u) :
    BannedUntil { s with banned := s.banned.insert peer' u } peer t := by
  obtain ⟨v, hv, htv⟩ := h
  rcases eq_or_ne peer peer' with rfl | hne
  · exact ⟨u, lookup_insert _, hu rfl⟩
  · exact ⟨v, (lookup_insert_ne hne).trans hv, htv⟩

lemma GoCase.frame (h : GoCase s i a s') :
    s'.now = s.now ∧ s'.failures = s.failures ∧ s'.told = s.told := by
  cases h <;> exact ⟨rfl, rfl, rfl⟩

/-- What a step leaves of the clock, the disconnects and the recordings. -/
lemma step_frame (h : s.step act = some s') :
    s.now ≤ s'.now ∧ s.told ⊆ s'.told ∧ ∀ j f, s.failures[j]? = some f →
      s'.failures[j]? = some f ∨ act = .record j := by
  cases act with
  | tick ms =>
    cases h
    exact ⟨Nat.le_add_right _ _, List.Subset.refl _, fun _ _ => .inl⟩
  | deliver peer | connect peer | accept peer =>
    cases h
    exact ⟨le_rfl, List.Subset.refl _, fun _ _ => .inl⟩
  | failure peer soleContributor =>
    cases h
    refine ⟨le_rfl, List.Subset.refl _, fun j f hf => .inl ?_⟩
    rwa [getElem?_append_left (List.getElem?_eq_some_iff.1 hf).1]
  | go i ok =>
    obtain ⟨a, -, h⟩ := bind_eq_some_iff.1 h
    obtain ⟨hnow, hfailures, htold⟩ := (go_cases h).2.frame
    exact ⟨hnow.ge, htold ▸ List.Subset.refl _, fun _ _ hf => .inl (hfailures ▸ hf)⟩
  | close i =>
    obtain ⟨a, -, h⟩ := bind_eq_some_iff.1 h
    obtain ⟨-, h⟩ := ite_none_right_eq_some.1 h
    cases h
    exact ⟨le_rfl, List.Subset.refl _, fun _ _ => .inl⟩
  | record j' =>
    obtain ⟨f', -, h⟩ := bind_eq_some_iff.1 h
    have hfailures : ∀ {g : Failure} j f, s.failures[j]? = some f →
        (s.failures.set j' g)[j]? = some f ∨ TablesAct.record j' = .record j := by
      intro g j f hf
      rcases eq_or_ne j' j with rfl | hne
      · exact .inr rfl
      · exact .inl ((getElem?_set_ne hne).trans hf)
    unfold record at h
    split at h <;> cases h
    case h_4 => exact ⟨le_rfl, subset_append_left _ _, hfailures⟩
    all_goals exact ⟨le_rfl, List.Subset.refl _, hfailures⟩

lemma BannedUntil.goCase (hb : s.BannedUntil peer t)
    (hnow : s.now < t) (h : GoCase s i a s') : s'.BannedUntil peer t := by
  cases h with
  | purge check => exact hb.purge hnow
  | move | note | insert => exact hb

/-- While a ban lasts, it stays, unless another one of the peer from an earlier reading of the
clock is stored in its place. -/
lemma BannedUntil.step {now : Nat} (hb : s.BannedUntil peer (now + PeerStates.banTtl))
    (hnow : s.now < now + PeerStates.banTtl) (hact : s.storesEarlier peer now act = false)
    (h : s.step act = some s') : s'.BannedUntil peer (now + PeerStates.banTtl) := by
  cases act with
  | tick ms | deliver peer | connect peer | accept peer | failure peer soleContributor =>
    cases h
    exact hb
  | go i ok =>
    obtain ⟨a, -, h⟩ := bind_eq_some_iff.1 h
    exact hb.goCase hnow (go_cases h).2
  | close i =>
    obtain ⟨a, -, h⟩ := bind_eq_some_iff.1 h
    obtain ⟨-, h⟩ := ite_none_right_eq_some.1 h
    cases h
    exact hb
  | record j =>
    obtain ⟨f, hf, h⟩ := bind_eq_some_iff.1 h
    unfold record at h
    split at h
    · cases h
      exact hb
    · cases h
      exact hb
    · rename_i now' hst
      cases h
      refine hb.store fun hpeer => Nat.add_le_add_right ?_ _
      simpa [storesEarlier, hf, hpeer, hst] using hact
    · cases h
      exact hb
    · cases h

/-! ## Telling connections -/

/-- The recording `j` of a failure of the peer has yet to look for connections, or has told the
connection `i`, if it is still live. -/
structure Tells (j : Nat) (f : Failure) (i : Nat) (s : PeerTables) : Prop where
  been : s.Been f.peer i
  tells : s.failures[j]? = some { f with stage := .telling } ∨
    s.failures[j]? = some { f with stage := .done true } ∧ (s.Live f.peer i → i ∈ s.told)

lemma Tells.step (hwf : s.Wf) (ht : Tells j f i s) (h : s.step act = some s') : Tells j f i s' := by
  obtain ⟨hbeen, hlive⟩ := been_step (step_cases h) ht.been
  refine ⟨hbeen, ?_⟩
  rcases ht.tells with hf | ⟨hf, htold⟩
  · rcases (step_frame h).2.2 j _ hf with hf' | rfl
    · exact .inl hf'
    · obtain ⟨f', hf', h⟩ := bind_eq_some_iff.1 h
      obtain rfl : { f with stage := .telling } = f' := some.inj (hf.symm.trans hf')
      cases h
      refine .inr ⟨?_, fun hl => mem_append_right _ (hwf.writerOf (hlive hl))⟩
      exact getElem?_set_self (List.getElem?_eq_some_iff.1 hf).1
  · rcases (step_frame h).2.2 j _ hf with hf' | rfl
    · exact .inr ⟨hf', fun hl => (step_frame h).2.1 (htold (hlive hl))⟩
    · obtain ⟨f', hf', h⟩ := bind_eq_some_iff.1 h
      obtain rfl : { f with stage := .done true } = f' := some.inj (hf.symm.trans hf')
      cases h

/-- While the ban lasts it is stored, and no attempt has passed the checks that had not in `s₁`. -/
def Refuses (peer : PeerAddr) (now : Nat) (s₁ s : PeerTables) : Prop :=
  s.now < now + PeerStates.banTtl →
    s.BannedUntil peer (now + PeerStates.banTtl) ∧ ∀ i, s.Passed peer i → s₁.Passed peer i

lemma Refuses.step {now : Nat} {s₁ : PeerTables}
    (hr : Refuses peer now s₁ s) (hact : s.storesEarlier peer now act = false)
    (h : s.step act = some s') : Refuses peer now s₁ s' := by
  intro hnow
  have hnow₀ := Nat.lt_of_le_of_lt (step_frame h).1 hnow
  obtain ⟨hb, hpassed⟩ := hr hnow₀
  refine ⟨hb.step hnow₀ hact h, fun i hi => ?_⟩
  rcases passed_step (step_cases h) hi with hi | hclear
  · exact hpassed i hi
  · exact absurd hb.mem hclear

end

/-! ## Every interleaving -/

/-- From when `ban` has stored a ban of a peer, for `BAN_TTL`, no attempt to connect with the peer
passes the last check for bans that had not passed it before; and once `record_hash_failure` has
returned, every connection with the peer that was live when the ban was stored and still is has
been told to disconnect. -/
theorem ban_kept (maxPeersPerTorrent : Nat) (as₀ as : List TablesAct) (s s₁ s' : PeerTables)
    (j : Nat) (f : Failure) (now : Nat)
    (hreach : Run step anyStep { maxPeersPerTorrent } as₀ s)
    (hf : s.failures[j]? = some f) (hst : f.stage = .storing now)
    (hs : s.step (.record j) = some s₁)
    (hrun : Run step (fun s act => s.storesEarlier f.peer now act = false) s₁ as s') :
    (s'.now < now + PeerStates.banTtl → ∀ i, s'.Passed f.peer i → s₁.Passed f.peer i) ∧
      (s'.failures[j]? = some { f with stage := .done true } →
        ∀ i, s₁.Live f.peer i → s'.Live f.peer i → i ∈ s'.told) := by
  have hwf : s.Wf :=
    hreach.inv (fun hwf _ h => hwf.step (step_cases h)) (fun i a ha => by simp at ha)
  have hwf₁ : s₁.Wf := hwf.step (step_cases hs)
  have hs₁ : s₁ = goOn { s with banned := s.banned.insert f.peer (now + PeerStates.banTtl) } j f
      .telling := by
    simpa [step, hf, record, hst] using hs.symm
  refine ⟨fun hnow => ?_, fun hdone i hi₁ hi => ?_⟩
  · have hrefuses : Refuses f.peer now s₁ s' := by
      refine hrun.inv (fun hr hact h => hr.step hact h) fun _ => ⟨?_, fun _ => id⟩
      rw [hs₁]
      exact ⟨_, lookup_insert _, le_rfl⟩
    exact (hrefuses hnow).2
  · have htells : s'.Wf ∧ Tells j f i s' := by
      refine hrun.inv (I := fun s => s.Wf ∧ Tells j f i s) (fun ht _ h =>
        ⟨ht.1.step (step_cases h), ht.2.step ht.1 h⟩) ⟨hwf₁, ?_, .inl ?_⟩
      · obtain ⟨a, ha, hp, hl⟩ := hi₁
        exact ⟨a, ha, hp, .inl hl⟩
      · rw [hs₁]
        exact getElem?_set_self (List.getElem?_eq_some_iff.1 hf).1
    rcases htells.2.tells with ht | ⟨-, ht⟩
    · simp [ht] at hdone
    · exact ht hi

/-- The steps of an incoming peer up to its connection `i`. -/
def acceptRun (peer : PeerAddr) (i : Nat) : List TablesAct :=
  .accept peer :: List.replicate 11 (.go i true)

/-- A peer is connected, and is about to be banned as the sole contributor to a bad piece. -/
def soleRun (peer : PeerAddr) : List TablesAct :=
  acceptRun peer 0 ++ [.failure peer true, .record 0, .record 0]

def badPeer : PeerAddr := ⟨.v4 0x7f000001, 6881⟩

/-- The tables when the ban is about to be stored. -/
def banning : PeerTables :=
  (exec step anyStep { maxPeersPerTorrent := 10 } (soleRun badPeer)).get (by decide +kernel)

def banStored : PeerTables := (banning.step (.record 0)).get (by decide +kernel)

/-- The ban is completed, and the peer comes back with the same address. -/
def returnRun : List TablesAct :=
  [.record 0, .connect badPeer] ++ List.replicate 4 (.go 1 true)

/-- The peer is told to disconnect, and is refused when it comes back with the same address. -/
theorem ban_kept_return :
    ∃ s', Run step (fun s act => s.storesEarlier badPeer 0 act = false) banStored returnRun s' ∧
      0 ∈ s'.told ∧ ¬s'.Passed badPeer 1 := by
  have hrun : Run step (fun s act => s.storesEarlier badPeer 0 act = false) banStored returnRun _ :=
    .of_isSome
  have hkept := ban_kept 10 (soleRun badPeer) returnRun banning banStored _ 0
    ⟨badPeer, true, .storing 0⟩ 0 (.of_isSome _) (by decide +kernel) rfl
    (some_get _).symm hrun
  refine ⟨_, hrun, hkept.2 (by decide +kernel) 0 (by decide +kernel) (by decide +kernel),
    fun h => ?_⟩
  exact absurd (hkept.1 (by decide +kernel) 1 h) (by decide +kernel)

/-- However attempts overlap, one of them at most is live with a peer. -/
theorem one_live {maxPeersPerTorrent : Nat} {as : List TablesAct}
    (h : Run step anyStep { maxPeersPerTorrent } as s) (hi : s.Live peer i) (hk : s.Live peer k) :
    i = k := by
  have hwf : s.Wf := h.inv (fun hwf _ hs => hwf.step (step_cases hs)) fun i a ha => by simp at ha
  have hi := mem_toList.1 (hwf.writerOf hi)
  have hk := mem_toList.1 (hwf.writerOf hk)
  exact some.inj (hi.symm.trans hk)

theorem one_live_twice : ∃ s, Run step anyStep { maxPeersPerTorrent := 10 }
      (acceptRun badPeer 0 ++ acceptRun badPeer 1) s ∧ s.Live badPeer 0 ∧ ¬s.Live badPeer 1 :=
  have hrun := Run.of_isSome
  ⟨_, hrun, by decide +kernel, fun h =>
    absurd (one_live (i := 0) hrun (by decide +kernel) h) Nat.zero_ne_one⟩

/-- A host that was banned connects from another port. -/
theorem other_port_connects : ∃ s s', Run step anyStep { maxPeersPerTorrent := 10 }
        (soleRun badPeer ++ [.record 0, .record 0]) s ∧
      s.failures = [⟨badPeer, true, .done true⟩] ∧ s.attempts.length = 1 ∧
      Run step anyStep s (acceptRun ⟨badPeer.ip, 9999⟩ 1) s' ∧
      s'.now < PeerStates.banTtl ∧ s'.Live ⟨badPeer.ip, 9999⟩ 1 :=
  ⟨_, _, .of_isSome, by decide +kernel, by decide +kernel,
    .of_isSome, by decide +kernel, by decide +kernel⟩

end PeerTables

end BitRev
