import BitRev.Tracker.Loop

/-!
# When the announce loop announces

The loop looks at the `DownloadState` of its torrent before every announce but one: a pause that
it notices while it waits after a success is itself announced, and the announce that follows the
resume does not wait for the rest of the interval. A torrent that gets queued is paused in the same
way. In runs without such a pause (`Steady`) every announce but `stopped` finds the torrent
transferring, and two announces without an event are an interval apart.
-/

namespace BitRev.Tracker

open List Option

/-- Two announces in a row without an event, the first of which succeeded, are as far apart as its
response asked for. -/
def Spaced (a : Announce) (older : List Announce) : Prop :=
  a.event = none → ∀ b ∈ older.head?, b.event = none → ∀ r ∈ b.response, b.time + r.delay ≤ a.time

def SpacedAll : List Announce → Prop
  | [] => True
  | a :: older => Spaced a older ∧ SpacedAll older

lemma SpacedAll.split {newer older : List Announce} {a : Announce}
    (h : SpacedAll (newer ++ a :: older)) : Spaced a older := by
  induction newer with
  | nil => exact h.1
  | cons b newer ih => exact ih h.2

namespace AnnounceLoop

/-- No pause is noticed while the loop waits after a success, and a torrent that is complete when
an announce is due stays so until it is made. -/
def Steady (l : AnnounceLoop) : Act → Prop
  | .wake .tick =>
    match l.pc with
    | .reannounce true _ => l.downloadState ≠ .paused
    | _ => True
  | .setComplete false => l.pc = .entry → l.complete = false
  | _ => True

instance (l : AnnounceLoop) (a : Act) : Decidable (l.Steady a) := by
  unfold Steady
  split
  · split <;> infer_instance
  · infer_instance
  · infer_instance

/-- What holds wherever the loop is. -/
structure Regular (l : AnnounceLoop) : Prop where
  spaced : SpacedAll l.log
  transferring : ∀ a ∈ l.log, a.event ≠ some .stopped → a.downloadState = .downloading
  past : ∀ a ∈ l.log, a.time ≤ l.now
  named : ∀ a ∈ l.log.head?, a.event = none → l.sentStarted

def Due (l : AnnounceLoop) (t : Nat) : Prop :=
  ∀ b ∈ l.log.head?, ∀ r ∈ b.response, b.time + r.delay ≤ t

def Paced (l : AnnounceLoop) : Prop :=
  match l.pc with
  | .entry => l.Regular ∧ (l.Due l.now ∨ (l.complete ∧ l.sentCompleted = false))
  | .dispatch _ => l.Regular ∧ l.log ≠ []
  | .peers delay => l.Regular ∧ ∀ b ∈ l.log.head?, ∀ r ∈ b.response, r.delay ≤ delay
  | .reannounce succeeded deadline =>
    l.Regular ∧ l.Due deadline ∧ (succeeded = false → ∀ b ∈ l.log.head?, b.response = none)
  | .pauseDispatch => False
  | .pauseWait => l.Regular ∧ ∀ b ∈ l.log.head?, b.response = none
  | .stopped | .done => l.Regular

variable {l l' : AnnounceLoop}

lemma Regular.leave (h : l.Regular) : l.leave.Paced := by
  unfold AnnounceLoop.leave
  split
  · refine ⟨⟨fun hs => (by cases hs), h.spaced⟩, forall_mem_cons.2
      ⟨fun hne => absurd rfl hne, h.transferring⟩, forall_mem_cons.2 ⟨le_rfl, h.past⟩,
      fun a ha hev => ?_⟩
    cases ha
    cases hev
  · exact { h with }

lemma Regular.waitReannounce (h : l.Regular) (succeeded : Bool) {delay : Nat}
    (hdelay : ∀ b ∈ l.log.head?, ∀ r ∈ b.response, r.delay ≤ delay)
    (hfail : succeeded = false → ∀ b ∈ l.log.head?, b.response = none) :
    (l.waitReannounce succeeded delay).Paced := by
  have hdue : l.Due (l.now + delay) := fun b hb r hr => by
    have hpast := h.past b (mem_of_mem_head? hb)
    have hle := hdelay b hb r hr
    omega
  unfold AnnounceLoop.waitReannounce
  split
  · exact h.leave
  split_ifs with hz
  · rw [hz, Nat.add_zero] at hdue
    exact ⟨{ h with }, .inl hdue⟩
  · exact ⟨{ h with }, hdue, hfail⟩

/-- The result of an announce says nothing about the announces before it. -/
lemma Regular.settle (h : l.Regular) (result : Option Response) : (l.settle result).Regular := by
  cases hlog : l.log with
  | nil =>
    have heq : l.settle result = l := by
      simp only [AnnounceLoop.settle, hlog, modifyHead_nil]
      rw [← hlog]
    rwa [heq]
  | cons a older =>
    obtain ⟨hspaced, htrans, hpast, hnamed⟩ := h
    rw [hlog] at hspaced htrans hpast hnamed
    refine ⟨?_, ?_, ?_, ?_⟩ <;> rw [settle_log hlog]
    · exact ⟨hspaced.1, hspaced.2⟩
    · simpa using htrans
    · exact forall_mem_cons.2 (forall_mem_cons.1 hpast)
    · intro b hb hev
      cases hb
      exact hnamed a rfl hev

lemma Paced.answer (h : l.Paced) {result : Option Response} (hs : l.answer result = some l') :
    l'.Paced := by
  unfold AnnounceLoop.answer at hs
  split at hs
  · rename_i event hpc
    simp only [Paced, hpc] at h
    obtain ⟨h, hne⟩ := h
    have hreg := h.settle result
    obtain ⟨a, older, hlog⟩ := exists_cons_of_ne_nil hne
    -- the last announce is the one that is answered
    have hlast : ∀ b ∈ (l.settle result).log.head?, b.response = result := fun b hb => by
      rw [settle_log hlog] at hb
      cases hb
      rfl
    dsimp only at hs
    split at hs
    · split at hs <;> obtain rfl := some.inj hs <;>
        exact Regular.leave { hreg with }
    cases result with
    | none =>
      cases hs
      have hreg' : Regular { (l.settle none) with backoff := some (nextBackoff l.backoff) } :=
        { hreg with }
      refine hreg'.waitReannounce false (fun b hb r hr => ?_) fun _ => hlast
      rw [hlast b hb] at hr
      cases hr
    | some resp =>
      have hdelay : ∀ b ∈ (l.settle (some resp)).log.head?, ∀ r ∈ b.response,
          r.delay ≤ resp.delay := fun b hb r hr => by
        rw [hlast b hb] at hr
        cases hr
        exact le_rfl
      have hreg' : ∀ pc, Regular { (l.settle (some resp)) with
          pc, backoff := none
          sentStarted := l.sentStarted || event = some AnnounceEvent.started
          sentCompleted := l.sentCompleted || event = some AnnounceEvent.completed
          trackerId := resp.trackerId.or l.trackerId } := fun pc => by
        refine ⟨hreg.spaced, hreg.transferring, hreg.past, fun b hb hev => ?_⟩
        have hst : l.sentStarted := hreg.named b hb hev
        simp [hst]
      dsimp only at hs
      split at hs
      · cases hs
        exact ⟨hreg' _, hdelay⟩
      · cases hs
        exact Regular.waitReannounce (hreg' _) true hdelay fun hf => by cases hf
  · rename_i hpc
    simp only [Paced, hpc] at h
  · rename_i hpc
    cases hs
    have h : l.Regular := by simpa only [Paced, hpc] using h
    have hreg := h.settle result
    exact { hreg with }
  · cases hs

lemma Paced.check (h : l.Paced) (hs : l.check = some l') : l'.Paced := by
  unfold AnnounceLoop.check at hs
  split at hs
  · rename_i hpc
    have hentry := h
    simp only [Paced, hpc] at h
    obtain ⟨h, hdue⟩ := h
    split at hs
    · cases hs
      exact h.leave
    split_ifs at hs with hd
    · cases hs
      refine ⟨⟨⟨fun hev b hb hbev r hr => ?_, h.spaced⟩, forall_mem_cons.2
        ⟨fun _ => hd, h.transferring⟩, forall_mem_cons.2 ⟨le_rfl, h.past⟩, fun a ha hev => ?_⟩,
        by simp [announce]⟩
      -- no event: it is not the completion that ended the wait
      · have hst := h.named b hb hbev
        rcases hdue with hdue | ⟨hc, hn⟩
        · exact hdue b hb r hr
        · have hev : nextAnnounceEvent l.complete l.sentStarted l.sentCompleted = none := hev
          simp [nextAnnounceEvent, hst, hc, hn] at hev
      · cases ha
        have hev : nextAnnounceEvent l.complete l.sentStarted l.sentCompleted = none := hev
        change l.sentStarted
        by_contra hst
        simp [nextAnnounceEvent, hst] at hev
    · cases hs
      exact hentry
  · rename_i hpc
    have hwait := h
    simp only [Paced, hpc] at h
    obtain ⟨h, hfail⟩ := h
    split at hs
    · cases hs
      exact h.leave
    split at hs
    · cases hs
      refine ⟨{ h with }, .inl fun b hb r hr => ?_⟩
      rw [hfail b hb] at hr
      cases hr
    · cases hs
      exact hwait
  · cases hs

lemma Paced.wake (h : l.Paced) {branch : Branch} (hok : l.Steady (.wake branch))
    (hs : l.wake branch = some l') : l'.Paced := by
  unfold AnnounceLoop.wake at hs
  split at hs
  · rename_i succeeded deadline hpc
    have hwait := h
    simp only [Paced, hpc] at h
    obtain ⟨h, hdue, hfail⟩ := h
    have hreg : ∀ pc, { l with pc }.Regular := fun _ =>
      { h with }
    split at hs
    · split_ifs at hs
      cases hs
      exact h.leave
    · split_ifs at hs with hle
      cases hs
      exact ⟨hreg _, .inl fun b hb r hr => (hdue b hb r hr).trans hle⟩
    · split at hs
      · rename_i hp
        cases succeeded with
        | true =>
          simp only [Steady, hpc] at hok
          exact absurd hp hok
        | false =>
          cases hs
          exact ⟨hreg _, hfail rfl⟩
      split_ifs at hs with hc
      · cases hs
        simp only [Bool.and_eq_true, Bool.not_eq_true'] at hc
        exact ⟨hreg _, .inr ⟨hc.2, hc.1⟩⟩
      · cases hs
        exact hwait
  · cases hs

/-- What others change: time passes, and a torrent that is complete at the top stays so. -/
lemma Paced.frame (h : l.Paced) (hpc : l'.pc = l.pc) (hs : l'.sentStarted = l.sentStarted)
    (hc : l'.sentCompleted = l.sentCompleted) (hlog : l'.log = l.log) (hnow : l.now ≤ l'.now)
    (hcomplete : l.pc = .entry → l.complete → l'.complete) : l'.Paced := by
  have hr : l.Regular → l'.Regular := fun h => by
    refine ⟨?_, ?_, ?_, ?_⟩
    · rw [hlog]; exact h.spaced
    · rw [hlog]; exact h.transferring
    · rw [hlog]; exact fun a ha => (h.past a ha).trans hnow
    · rw [hlog, hs]; exact h.named
  have hd : ∀ t t', t ≤ t' → l.Due t → l'.Due t' := fun t t' hle h => by
    unfold Due
    rw [hlog]
    exact fun b hb r hr => (h b hb r hr).trans hle
  unfold Paced at h ⊢
  rw [hpc]
  split at h
  · rename_i hentry
    exact ⟨hr h.1, h.2.imp (hd _ _ hnow) fun ⟨hcm, hn⟩ => ⟨hcomplete hentry hcm, hc ▸ hn⟩⟩
  · exact ⟨hr h.1, hlog ▸ h.2⟩
  · exact ⟨hr h.1, hlog ▸ h.2⟩
  · exact ⟨hr h.1, hd _ _ le_rfl h.2.1, hlog ▸ h.2.2⟩
  · exact h
  · exact ⟨hr h.1, hlog ▸ h.2⟩
  · exact hr h
  · exact hr h

lemma Paced.step (h : l.Paced) {a : Act} (hok : l.Steady a) (hs : l.step a = some l') :
    l'.Paced := by
  cases a with
  | setDownloadState d | cancel =>
    cases hs
    exact h.frame rfl rfl rfl rfl le_rfl fun _ hc => hc
  | setComplete complete =>
    cases hs
    refine h.frame rfl rfl rfl rfl le_rfl fun hpc hc => ?_
    cases complete with
    | true => rfl
    | false =>
      rw [hok hpc] at hc
      cases hc
  | elapse ms =>
    cases hs
    exact h.frame rfl rfl rfl rfl (Nat.le_add_right _ _) fun _ hc => hc
  | check => exact h.check hs
  | answer result => exact h.answer hs
  | peersDone =>
    simp only [AnnounceLoop.step] at hs
    split at hs
    · rename_i delay hpc
      cases hs
      simp only [Paced, hpc] at h
      exact h.1.waitReannounce true h.2 fun hf => by cases hf
    · cases hs
  | wake branch => exact h.wake hok hs

/-- In every run without such a pause, every announce but `stopped` finds the torrent
transferring, and two announces in a row without an event, the first of which succeeded, are the
delay of its response apart. -/
theorem announces_paced {d : DownloadState} {complete shutdown : Bool} {now : Nat}
    {acts : List Act} {l : AnnounceLoop}
    (hrun : Run step Steady (start d complete shutdown now) acts l) :
    (∀ a ∈ l.log, a.event ≠ some .stopped → a.downloadState = .downloading) ∧
    ∀ newer a b older, l.log = newer ++ a :: b :: older → a.event = none → b.event = none →
      ∀ r, b.response = some r → b.time + reannounceDelay r.interval r.minInterval ≤ a.time := by
  have h0 : (start d complete shutdown now).Paced := by
    refine ⟨⟨trivial, ?_, ?_, ?_⟩, .inl fun b hb => ?_⟩ <;> simp_all [AnnounceLoop.start]
  have h : l.Paced := hrun.inv (I := Paced) (fun hI hok hs => hI.step hok hs) h0
  have hreg : l.Regular := by
    unfold Paced at h
    split at h <;> first | exact h | exact h.1 | exact h.elim
  refine ⟨hreg.transferring, fun newer a b older hlog ha hb r hr => ?_⟩
  exact (hlog ▸ hreg.spaced).split ha b rfl hb r hr

def twoIntervals : List Act :=
  [.check, .answer (some { interval := 60 }), .peersDone, .elapse 60000, .wake .sleep, .check,
    .answer (some { interval := 60, minInterval := some 90 }), .peersDone, .elapse 90000,
    .wake .sleep, .check]

theorem announces_paced_twoIntervals :
    ∃ l, Run step Steady (start .downloading false false 0) twoIntervals l ∧
      l.log.map (·.time) = [150000, 60000, 0] ∧
      ∀ a ∈ l.log, a.event ≠ some .stopped → a.downloadState = .downloading :=
  have hrun := Run.of_isSome
  ⟨_, hrun, by decide +kernel, (announces_paced hrun).1⟩

/-- A torrent that is queued and resumed while the loop waits. -/
def queuedOnce : List Act :=
  [.check, .answer (some { interval := 1800 }), .peersDone,
    .setDownloadState (syncDownloadState .queued), .wake .tick,
    .answer (some { interval := 1800 }), .setDownloadState (syncDownloadState .downloading),
    .elapse 100, .check, .check]

/-- The loop announces while the torrent is queued, and again as soon as it is resumed. -/
theorem announces_while_queued :
    ∃ l a b older, Run step anyStep (start .downloading false false 0) queuedOnce l ∧
      l.log = a :: b :: older ∧ a.event = none ∧ b.event = none ∧
      b.downloadState = syncDownloadState .queued ∧
      ∃ r, b.response = some r ∧ a.time < b.time + reannounceDelay r.interval r.minInterval :=
  ⟨_, _, _, _, .of_isSome, rfl, by decide +kernel, by decide +kernel,
    by decide +kernel, _, rfl, by decide +kernel⟩

end AnnounceLoop

end BitRev.Tracker
