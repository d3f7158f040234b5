import BitRev.Session.State

/-!
# The announce loop

`run_announce_loop` (`tracker.rs`), the task that announces a torrent to one tracker: it waits
until the torrent may transfer, announces, waits for the interval the tracker asked for (or backs
off), and starts over, until it is shut down.

The code between two awaits is one step (`Act`); between the steps the torrent's `DownloadState`
and completeness change, the loop is cancelled and time passes, in any order. `AnnounceLoop.log`
has every announce with what held when it was dispatched, newest first. The parameters of an
announce that the loop only passes on (counters, port, key) are left out, and so are the peers of
a response. Times are in milliseconds.
-/

namespace BitRev.Tracker

open List Option

inductive AnnounceEvent where
  | started
  | stopped
  | completed
  deriving DecidableEq

def initialBackoff : Nat := 15 * 1000
def maxBackoff : Nat := 30 * 60 * 1000
def defaultIntervalSecs : Nat := 1800
def defaultNumwant : Nat := 50

def nextBackoff : Option Nat → Nat
  | none => initialBackoff
  | some delay => min (delay * 2) maxBackoff

def reannounceDelay (intervalSecs : Nat) (minIntervalSecs : Option Nat) : Nat :=
  let interval := if intervalSecs = 0 then defaultIntervalSecs else intervalSecs
  let secs :=
    match minIntervalSecs with
    | some min => max interval min
    | none => interval
  secs * 1000

def nextAnnounceEvent (isComplete sentStarted sentCompleted : Bool) : Option AnnounceEvent :=
  if isComplete && sentStarted && !sentCompleted then some .completed
  else if !sentStarted then some .started
  else none

lemma nextAnnounceEvent_ne_stopped (isComplete sentStarted sentCompleted : Bool) :
    nextAnnounceEvent isComplete sentStarted sentCompleted ≠ some .stopped := by
  cases isComplete <;> cases sentStarted <;> cases sentCompleted <;> decide

/-- `DispatchedAnnounce`; `peers` says whether the peers could be parsed. -/
structure Response where
  peers : Bool := true
  interval : Nat
  minInterval : Option Nat := none
  trackerId : Option Bytes := none

def Response.delay (r : Response) : Nat := reannounceDelay r.interval r.minInterval

structure Announce where
  event : Option AnnounceEvent
  trackerId : Option Bytes
  numwant : Nat
  time : Nat
  downloadState : DownloadState
  complete : Bool
  /-- `none` while it is awaited; then the response, or `none` for a failure. -/
  result : Option (Option Response) := none

def Announce.response (a : Announce) : Option Response := a.result.join

/-- Where the loop is. -/
inductive Pc where
  /-- `wait_until_downloading` at the top. -/
  | entry
  | dispatch (event : Option AnnounceEvent)
  /-- The peers of a response are handed over; `delay` is its delay. -/
  | peers (delay : Nat)
  /-- `wait_reannounce` after a success or a failure. -/
  | reannounce (succeeded : Bool) (deadline : Nat)
  | pauseDispatch
  | pauseWait
  | stopped
  | done
  deriving DecidableEq

structure AnnounceLoop where
  pc : Pc := .entry
  sentStarted : Bool := false
  sentCompleted : Bool := false
  trackerId : Option Bytes := none
  backoff : Option Nat := none
  joined : Bool := false
  /-- What the loop reads and others write. -/
  downloadState : DownloadState := .init
  complete : Bool := false
  shutdown : Bool := false
  now : Nat := 0
  log : List Announce := []

/-- The branches of the `select!` in `wait_reannounce`. -/
inductive Branch where
  | shutdown
  | sleep
  | tick

inductive Act where
  | setDownloadState (d : DownloadState)
  | setComplete (complete : Bool)
  | cancel
  | elapse (ms : Nat)
  /-- A turn of `wait_until_downloading`. -/
  | check
  /-- The announce that is awaited ends, with a response or a failure. -/
  | answer (result : Option Response)
  | peersDone
  | wake (branch : Branch)

namespace AnnounceLoop

variable (l : AnnounceLoop)

def announcement (event : Option AnnounceEvent) (numwant : Nat) : Announce :=
  { event, trackerId := l.trackerId, numwant, time := l.now, downloadState := l.downloadState
    complete := l.complete }

def announce (event : Option AnnounceEvent) (numwant : Nat) (pc : Pc) : AnnounceLoop :=
  { l with pc, log := l.announcement event numwant :: l.log }

/-- Out of the loop: `send_stopped`, if anything was announced. -/
def leave : AnnounceLoop :=
  if l.joined then l.announce (some .stopped) 0 .stopped else { l with pc := .done }

/-- Into `wait_reannounce`. -/
def waitReannounce (succeeded : Bool) (delay : Nat) : AnnounceLoop :=
  if l.shutdown then l.leave
  else if delay = 0 then { l with pc := .entry }
  else { l with pc := .reannounce succeeded (l.now + delay) }

def check : Option AnnounceLoop :=
  match l.pc with
  | .entry =>
    if l.shutdown then some l.leave
    else if l.downloadState = .downloading then
      let event := nextAnnounceEvent l.complete l.sentStarted l.sentCompleted
      some ({ l with joined := true }.announce event defaultNumwant (.dispatch event))
    else some l
  | .pauseWait =>
    if l.shutdown then some l.leave
    else if l.downloadState = .downloading then some { l with pc := .entry }
    else some l
  | _ => none

def settle (result : Option Response) : AnnounceLoop :=
  { l with log := l.log.modifyHead fun a => { a with result := some result } }

def keepTrackerId (resp : Response) : AnnounceLoop :=
  { l with trackerId := resp.trackerId.or l.trackerId }

def answer (result : Option Response) : Option AnnounceLoop :=
  match l.pc with
  | .dispatch event =>
    let l := l.settle result
    if l.shutdown then
      match result with
      | some resp => some (l.keepTrackerId resp).leave
      | none => some l.leave
    else
      match result with
      | some resp =>
        let l := { l with
          backoff := none
          sentStarted := l.sentStarted || event = some AnnounceEvent.started
          sentCompleted := l.sentCompleted || event = some AnnounceEvent.completed }
        let l := l.keepTrackerId resp
        if resp.peers then some { l with pc := .peers resp.delay }
        else some (l.waitReannounce true resp.delay)
      | none =>
        let delay := nextBackoff l.backoff
        some ({ l with backoff := some delay }.waitReannounce false delay)
  | .pauseDispatch => some { l.settle result with pc := .pauseWait }
  | .stopped => some { l.settle result with pc := .done }
  | _ => none

def wake (branch : Branch) : Option AnnounceLoop :=
  match l.pc with
  | .reannounce succeeded deadline =>
    match branch with
    | .shutdown => if l.shutdown then some l.leave else none
    | .sleep => if deadline ≤ l.now then some { l with pc := .entry } else none
    | .tick =>
      if l.downloadState = .paused then
        if succeeded then some (l.announce none defaultNumwant .pauseDispatch)
        else some { l with pc := .pauseWait }
      else if !l.sentCompleted && l.complete then some { l with pc := .entry }
      else some l
  | _ => none

def step : Act → Option AnnounceLoop
  | .setDownloadState d => some { l with downloadState := d }
  | .setComplete complete => some { l with complete }
  | .cancel => some { l with shutdown := true }
  | .elapse ms => some { l with now := l.now + ms }
  | .check => l.check
  | .answer result => l.answer result
  | .peersDone =>
    match l.pc with
    | .peers delay => some (l.waitReannounce true delay)
    | _ => none
  | .wake branch => l.wake branch

end AnnounceLoop

/-! ## The lifecycle of the announces -/

def Succeeded (event : AnnounceEvent) (log : List Announce) : Prop :=
  ∃ a ∈ log, a.event = some event ∧ a.response.isSome

/-- An announce fits what was announced before it: `started` as long as none has succeeded and
never after, `completed` after a successful `started`, as long as none has succeeded, and only if
the torrent was incomplete at an earlier announce; `stopped` after some announce, and nothing after
`stopped`. -/
structure Fits (a : Announce) (older : List Announce) : Prop where
  last : ∀ b ∈ older, b.event ≠ some .stopped
  stopped : a.event = some .stopped → older ≠ []
  started : a.event ≠ some .stopped → (a.event = some .started ↔ ¬ Succeeded .started older)
  completed : a.event = some .completed →
    Succeeded .started older ∧ ¬ Succeeded .completed older ∧ ∃ b ∈ older, b.complete = false

def FitsAll : List Announce → Prop
  | [] => True
  | a :: older => Fits a older ∧ FitsAll older

lemma FitsAll.split {newer older : List Announce} {a : Announce}
    (h : FitsAll (newer ++ a :: older)) : Fits a older := by
  induction newer with
  | nil => exact h.1
  | cons b newer ih => exact ih h.2

lemma succeeded_cons {event : AnnounceEvent} {a : Announce} {log : List Announce} :
    Succeeded event (a :: log) ↔
      (a.event = some event ∧ a.response.isSome) ∨ Succeeded event log := by
  simp [Succeeded]

namespace AnnounceLoop

structure Running (l : AnnounceLoop) : Prop where
  fits : FitsAll l.log
  joined : l.joined ↔ l.log ≠ []
  open_ : ∀ a ∈ l.log, a.event ≠ some .stopped
  started : l.sentStarted ↔ Succeeded .started l.log
  completed : l.sentCompleted ↔ Succeeded .completed l.log
  incomplete : l.log ≠ [] → ∃ a ∈ l.log, a.complete = false

/-- After the loop: nothing was announced, or `stopped` was announced last. -/
structure Ended (l : AnnounceLoop) : Prop where
  fits : FitsAll l.log
  stopped : l.log = [] ∨ ∃ a older, l.log = a :: older ∧ a.event = some .stopped

def Inv (l : AnnounceLoop) : Prop :=
  match l.pc with
  | .dispatch event =>
    l.Running ∧ ∃ a older, l.log = a :: older ∧ a.event = event ∧ a.result = none
  | .pauseDispatch =>
    l.Running ∧ ∃ a older, l.log = a :: older ∧ a.event = none
  | .stopped => l.Ended ∧ l.log ≠ []
  | .done => l.Ended
  | .peers _ | .reannounce true _ => l.Running ∧ l.sentStarted
  | .entry | .reannounce false _ | .pauseWait => l.Running

def StartsIncomplete (l : AnnounceLoop) : Act → Prop
  | .check => l.log = [] → l.downloadState = .downloading → l.complete = false
  | _ => True

instance (l : AnnounceLoop) (a : Act) : Decidable (l.StartsIncomplete a) := by
  unfold StartsIncomplete
  split <;> infer_instance

variable {l l' : AnnounceLoop} {a : Announce} {older : List Announce}

lemma Running.leave (hfits : FitsAll l.log) (hjoined : l.joined ↔ l.log ≠ [])
    (hopen : ∀ a ∈ l.log, a.event ≠ some .stopped) : l.leave.Inv := by
  unfold AnnounceLoop.leave
  split_ifs with hj
  · refine ⟨⟨⟨⟨hopen, fun _ => hjoined.1 hj, fun h => absurd rfl h, fun h => ?_⟩, hfits⟩,
      .inr ⟨_, _, rfl, rfl⟩⟩, by simp [announce]⟩
    cases h
  · have hnil : l.log = [] := not_not.1 fun h => hj (hjoined.2 h)
    exact ⟨hfits, .inl hnil⟩

lemma Running.waitReannounce (h : l.Running) (succeeded : Bool) (delay : Nat)
    (hs : succeeded → l.sentStarted) : (l.waitReannounce succeeded delay).Inv := by
  have hr : ∀ pc, { l with pc }.Running := fun _ =>
    { h with }
  unfold AnnounceLoop.waitReannounce
  split
  · exact Running.leave h.fits h.joined h.open_
  split
  · exact hr _
  · cases succeeded
    · exact hr _
    · exact ⟨hr _, hs rfl⟩

lemma Running.dispatch (h : l.Running)
    (ha : a.event = nextAnnounceEvent l.complete l.sentStarted l.sentCompleted) : Fits a l.log := by
  have hne : a.event ≠ some .stopped := ha ▸ nextAnnounceEvent_ne_stopped _ _ _
  refine ⟨h.open_, fun hs => absurd hs hne, fun _ => ?_, fun hc => ?_⟩
  · rw [← h.started, ha, nextAnnounceEvent]
    cases l.sentStarted <;> cases l.complete <;> cases l.sentCompleted <;> simp
  · rw [ha, nextAnnounceEvent] at hc
    split at hc
    · rename_i hflags
      simp only [Bool.and_eq_true, Bool.not_eq_true'] at hflags
      obtain ⟨b, hb, hbs⟩ := h.started.1 hflags.1.2
      refine ⟨⟨b, hb, hbs⟩, fun hcs => ?_, h.incomplete (ne_nil_of_mem hb)⟩
      rw [h.completed.2 hcs] at hflags
      simp at hflags
    · split at hc <;> cases hc

lemma Running.announce (h : l.Running) {event : Option AnnounceEvent} {numwant : Nat}
    (hfit : Fits (l.announcement event numwant) l.log) (hne : event ≠ some .stopped)
    (hinc : l.log = [] → l.complete = false) (pc : Pc) :
    Running { l with joined := true, pc, log := l.announcement event numwant :: l.log } := by
  refine ⟨⟨hfit, h.fits⟩, by simp, forall_mem_cons.2 ⟨hne, h.open_⟩, ?_, ?_, fun _ => ?_⟩
  · refine h.started.trans ?_
    simp [announcement, succeeded_cons, Announce.response]
  · refine h.completed.trans ?_
    simp [announcement, succeeded_cons, Announce.response]
  · by_cases hnil : l.log = []
    · exact ⟨_, mem_cons_self, hinc hnil⟩
    · obtain ⟨b, hb, hbc⟩ := h.incomplete hnil
      exact ⟨b, mem_cons_of_mem _ hb, hbc⟩

lemma settle_log (hlog : l.log = a :: older) (result : Option Response) :
    (l.settle result).log = { a with result := some result } :: older := by
  simp only [settle, hlog, modifyHead_cons]

/-- A result changes nothing but what has succeeded. -/
lemma Running.settle (h : l.Running) (hlog : l.log = a :: older) (result : Option Response) :
    FitsAll (l.settle result).log ∧ ((l.settle result).joined ↔ (l.settle result).log ≠ []) ∧
      (∀ b ∈ (l.settle result).log, b.event ≠ some .stopped) ∧
      ∃ b ∈ (l.settle result).log, b.complete = false := by
  have hfits := h.fits
  have hopen := h.open_
  have hinc := h.incomplete (by simp [hlog])
  have hjoined := h.joined
  rw [hlog] at hfits hopen hinc hjoined
  rw [settle_log hlog]
  refine ⟨⟨⟨hfits.1.last, hfits.1.stopped, hfits.1.started, hfits.1.completed⟩, hfits.2⟩, ?_, ?_, ?_⟩
  · exact hjoined.trans (by simp)
  · simpa using hopen
  · simpa using hinc

lemma succeeded_settle (hlog : l.log = a :: older)
    (ha : a.result = none) (result : Option Response) (event : AnnounceEvent) :
    Succeeded event (l.settle result).log ↔
      (a.event = some event ∧ result.isSome) ∨ Succeeded event l.log := by
  rw [settle_log hlog, hlog, succeeded_cons, succeeded_cons]
  simp [Announce.response, ha]

lemma Running.sentStarted_of (h : l.Running)
    (hlog : l.log = a :: older) (ha : a.event ≠ some .started) : l.sentStarted := by
  have hfits := h.fits
  rw [hlog] at hfits
  have hopen := h.open_ a (by simp [hlog])
  have hs : Succeeded .started older :=
    not_not.1 fun hn => ha ((hfits.1.started hopen).2 hn)
  refine h.started.2 ?_
  rw [hlog, succeeded_cons]
  exact .inr hs

lemma Inv.answer (h : l.Inv) {result : Option Response} (hs : l.answer result = some l') :
    l'.Inv := by
  unfold AnnounceLoop.answer at hs
  split at hs
  · rename_i event hpc
    simp only [Inv, hpc] at h
    obtain ⟨h, a, older, hlog, hev, hres⟩ := h
    obtain ⟨hfits, hjoined, hopen, hinc⟩ := h.settle hlog result
    have hsucc := succeeded_settle hlog hres result
    dsimp only at hs
    split at hs
    -- cancelled meanwhile: the loop is left whatever the result
    · split at hs <;> obtain rfl := some.inj hs <;> exact Running.leave hfits hjoined hopen
    cases result with
    | none =>
      cases hs
      have hr : Running { (l.settle none) with backoff := some (nextBackoff l.backoff) } := by
        refine ⟨hfits, hjoined, hopen, ?_, ?_, fun _ => hinc⟩
        · refine h.started.trans ?_
          rw [hsucc]
          simp
        · refine h.completed.trans ?_
          rw [hsucc]
          simp
      exact hr.waitReannounce false _ (fun hf => by cases hf)
    | some resp =>
      have hr : ∀ pc, Running { (l.settle (some resp)) with
          pc, backoff := none
          sentStarted := l.sentStarted || event = some AnnounceEvent.started
          sentCompleted := l.sentCompleted || event = some AnnounceEvent.completed
          trackerId := resp.trackerId.or l.trackerId } := fun pc => by
        refine ⟨hfits, hjoined, hopen, ?_, ?_, fun _ => hinc⟩
        · rw [hsucc, ← h.started, hev]
          simp [or_comm]
        · rw [hsucc, ← h.completed, hev]
          simp [or_comm]
      have hst : (l.sentStarted || event = some AnnounceEvent.started) := by
        by_cases he : event = some .started
        · simp [he]
        · simp [h.sentStarted_of hlog (hev ▸ he)]
      dsimp only at hs
      split at hs
      · cases hs
        exact ⟨hr _, hst⟩
      · cases hs
        exact Running.waitReannounce (hr _) true _ fun _ => hst
  · rename_i hpc
    simp only [Inv, hpc] at h
    obtain ⟨h, a, older, hlog, hev⟩ := h
    obtain ⟨hfits, hjoined, hopen, hinc⟩ := h.settle hlog result
    -- an announce without an event makes no event succeed
    have hsucc : ∀ event, Succeeded event (l.settle result).log ↔ Succeeded event l.log := by
      intro event
      rw [settle_log hlog, hlog, succeeded_cons, succeeded_cons]
      simp [hev]
    cases hs
    exact ⟨hfits, hjoined, hopen, h.started.trans (hsucc _).symm, h.completed.trans (hsucc _).symm,
      fun _ => hinc⟩
  · rename_i hpc
    simp only [Inv, hpc] at h
    obtain ⟨⟨hfits, hstop⟩, hne⟩ := h
    cases hs
    rcases hstop with hnil | ⟨a, older, hlog, hev⟩
    · exact absurd hnil hne
    · rw [hlog] at hfits
      refine ⟨?_, .inr ⟨_, older, settle_log hlog result, hev⟩⟩
      change FitsAll (l.settle result).log
      rw [settle_log hlog]
      exact ⟨⟨hfits.1.last, hfits.1.stopped, hfits.1.started, hfits.1.completed⟩, hfits.2⟩
  · cases hs

lemma Inv.check (h : l.Inv) (hok : l.StartsIncomplete .check) (hs : l.check = some l') :
    l'.Inv := by
  unfold AnnounceLoop.check at hs
  split at hs
  · rename_i hpc
    have h : l.Running := by simpa only [Inv, hpc] using h
    split at hs
    · cases hs
      exact Running.leave h.fits h.joined h.open_
    split_ifs at hs with hd
    · cases hs
      exact ⟨h.announce (h.dispatch rfl) (nextAnnounceEvent_ne_stopped _ _ _)
        (fun hnil => hok hnil hd) _, _, _, rfl, rfl, rfl⟩
    · cases hs
      simpa only [Inv, hpc] using h
  · rename_i hpc
    have h : l.Running := by simpa only [Inv, hpc] using h
    split at hs
    · cases hs
      exact Running.leave h.fits h.joined h.open_
    split at hs
    · cases hs
      exact { h with }
    · cases hs
      simpa only [Inv, hpc] using h
  · cases hs

lemma Inv.wake (h : l.Inv) {branch : Branch} (hs : l.wake branch = some l') : l'.Inv := by
  unfold AnnounceLoop.wake at hs
  split at hs
  · rename_i succeeded deadline hpc
    have hr : l.Running := by
      cases succeeded
      · simpa only [Inv, hpc] using h
      · simp only [Inv, hpc] at h
        exact h.1
    have hpcs : ∀ pc, { l with pc }.Running := fun _ =>
      { hr with }
    split at hs
    · split_ifs at hs
      cases hs
      exact Running.leave hr.fits hr.joined hr.open_
    · split_ifs at hs
      cases hs
      exact hpcs _
    · split at hs
      · split_ifs at hs with hsucc
        · subst hsucc
          simp only [Inv, hpc] at h
          cases hs
          obtain ⟨b, hb, hbs⟩ := hr.started.1 h.2
          have hne := ne_nil_of_mem hb
          have hfit : Fits (l.announcement none defaultNumwant) l.log :=
            ⟨hr.open_, fun hs => (by cases hs),
              fun _ => iff_of_false (by simp [announcement]) (not_not.2 ⟨b, hb, hbs⟩),
              fun hs => (by cases hs)⟩
          have hrun := hr.announce hfit (by simp) (fun hnil => absurd hnil hne) .pauseDispatch
          rw [← hr.joined.2 hne] at hrun
          exact ⟨hrun, _, _, rfl, rfl⟩
        · cases hs
          exact hpcs _
      split at hs
      · cases hs
        exact hpcs _
      · cases hs
        exact h
  · cases hs

/-- What others change does not concern the log. -/
lemma Inv.frame (h : l.Inv) (hpc : l'.pc = l.pc) (hs : l'.sentStarted = l.sentStarted)
    (hc : l'.sentCompleted = l.sentCompleted) (hj : l'.joined = l.joined) (hlog : l'.log = l.log) :
    l'.Inv := by
  have hr : l.Running → l'.Running := fun h => by
    refine ⟨?_, ?_, ?_, ?_, ?_, ?_⟩
    · rw [hlog]; exact h.fits
    · rw [hj, hlog]; exact h.joined
    · rw [hlog]; exact h.open_
    · rw [hs, hlog]; exact h.started
    · rw [hc, hlog]; exact h.completed
    · rw [hlog]; exact h.incomplete
  have he : l.Ended → l'.Ended := fun h => ⟨hlog ▸ h.fits, hlog ▸ h.stopped⟩
  unfold Inv at h ⊢
  rw [hpc, hs, hlog]
  split at h
  · exact ⟨hr h.1, h.2⟩
  · exact ⟨hr h.1, h.2⟩
  · exact ⟨he h.1, h.2⟩
  · exact he h
  · exact ⟨hr h.1, h.2⟩
  · exact ⟨hr h.1, h.2⟩
  · exact hr h
  · exact hr h
  · exact hr h

lemma Inv.step (h : l.Inv) {a : Act} (hok : l.StartsIncomplete a) (hs : l.step a = some l') :
    l'.Inv := by
  cases a with
  | setDownloadState d | setComplete complete | cancel | elapse ms =>
    cases hs
    exact h.frame rfl rfl rfl rfl rfl
  | check => exact h.check hok hs
  | answer result => exact h.answer hs
  | peersDone =>
    simp only [AnnounceLoop.step] at hs
    split at hs
    · rename_i delay hpc
      cases hs
      simp only [Inv, hpc] at h
      exact h.1.waitReannounce true delay fun _ => h.2
    · cases hs
  | wake branch => exact h.wake hs

def start (downloadState : DownloadState) (complete shutdown : Bool) (now : Nat) : AnnounceLoop :=
  { downloadState, complete, shutdown, now }

lemma Inv.start (d : DownloadState) (complete shutdown : Bool) (now : Nat) :
    (start d complete shutdown now).Inv := by
  refine ⟨trivial, ?_, ?_, ?_, ?_, ?_⟩ <;> simp [AnnounceLoop.start, Succeeded]

/-- In every run every announce fits those before it, and a loop that has ended announced
`stopped` exactly if it announced anything else. -/
theorem announces_fit {d : DownloadState} {complete shutdown : Bool} {now : Nat} {acts : List Act}
    {l : AnnounceLoop}
    (hrun : Run step StartsIncomplete (start d complete shutdown now) acts l) :
    (∀ newer a older, l.log = newer ++ a :: older → Fits a older) ∧
    (l.pc = .done → ((∃ a ∈ l.log, a.event = some .stopped) ↔
      ∃ a ∈ l.log, a.event ≠ some .stopped)) := by
  have h : l.Inv := hrun.inv (I := Inv) (fun hI hok hs => hI.step hok hs) (.start d complete _ now)
  have hfits : FitsAll l.log := by
    unfold Inv at h
    split at h <;> first | exact h.fits | exact h.1.fits
  refine ⟨fun newer a older hlog => (hlog ▸ hfits).split, fun hpc => ?_⟩
  simp only [Inv, hpc] at h
  rcases h.stopped with hnil | ⟨a, older, hlog, hev⟩
  · simp [hnil]
  · rw [hlog] at hfits ⊢
    obtain ⟨b, hb⟩ := exists_mem_of_ne_nil _ (hfits.1.stopped hev)
    exact iff_of_true ⟨a, mem_cons_self, hev⟩ ⟨b, mem_cons_of_mem _ hb, hfits.1.last b hb⟩

/-- A download that finishes: the first announce fails, and the loop is cancelled at the end. -/
def finishing : List Act :=
  [.check, .answer none, .elapse 15000, .wake .sleep, .check, .answer (some { interval := 1800 }),
    .peersDone, .wake .tick, .setComplete true, .wake .tick, .check,
    .answer (some { interval := 1800 }), .peersDone, .cancel, .wake .shutdown, .answer none]

theorem announces_fit_finishing :
    ∃ l, Run step StartsIncomplete (start .downloading false false 0) finishing l ∧
      l.log.map (·.event) = [some .stopped, some .completed, some .started, some .started] ∧
      ∃ a ∈ l.log, a.event ≠ some .stopped :=
  have hrun := Run.of_isSome
  ⟨_, hrun, by decide +kernel,
    ((announces_fit hrun).2 (by decide +kernel)).1 (by decide +kernel)⟩

/-- The loop of a torrent that is complete when it starts. -/
def seeding : List Act :=
  [.check, .answer (some { interval := 1800 }), .peersDone, .wake .tick, .check,
    .answer (some { interval := 1800 })]

/-- It announces `completed` right after `started`, though it was never incomplete. -/
theorem completed_never_incomplete :
    ∃ l, Run step anyStep (start .downloading true false 0) seeding l ∧
      Succeeded .completed l.log ∧ ∀ a ∈ l.log, a.complete :=
  ⟨_, .of_isSome, by unfold Succeeded; decide +kernel, by decide +kernel⟩

end AnnounceLoop

end BitRev.Tracker
