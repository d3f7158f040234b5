import BitRev.Session.Changes

/-!
# Removed torrents

`removeTorrent` takes a torrent out of the session at once, but the tasks that work on it hold it
on their own: an add or promotion in flight inserts it again, and the writer, a flush or a timer
writes its resume file again. `removeTorrent_final`: if no task takes such a step, the torrent
stays removed.
-/

namespace BitRev

/-- The task, when it goes on, inserts a torrent or magnet with this id or writes its resume file. -/
def Task.Restores (id : TorrentId) (s : Session) (io : Io) : Task → Prop
  | .addListen c _ _ _ => c.torrent.infoHash = id
  | .pendingOpen c => c.infoHash = id
  | t => ∃ r ∈ t.saves s io, (s.sess r).torrent.infoHash = id

def Act.LeavesAlone (id : TorrentId) (s : Session) : Act → Prop
  | .poll n io => ∀ t ∈ s.tasks[n]?, ¬t.Restores id s io
  | _ => True

instance (id : TorrentId) (s : Session) (io : Io) (t : Task) : Decidable (t.Restores id s io) := by
  rcases t <;> unfold Task.Restores <;> infer_instance

instance (id : TorrentId) (s : Session) (a : Act) : Decidable (a.LeavesAlone id s) := by
  rcases a <;> unfold Act.LeavesAlone <;> infer_instance

namespace Session

variable {x : Ext} {s s' : Session} {e : Env} {a : Act} {id : TorrentId}

structure Gone (x : Ext) (id : TorrentId) (s : Session) : Prop where
  wf : s.Wf x
  torrents : s.torrents.lookup id = none
  pending : s.pending.lookup id = none
  resumeFile : s.options.stateDir.isSome → s.resumeFiles.lookup id = none

lemma LeavesAlone.inserts (ha : a.LeavesAlone id s) {c : AddCall} {r : Nat}
    (hi : a.Inserts s c r) : c.torrent.infoHash ≠ id := by
  obtain ⟨n, io, initial, startPaused, rfl, ht⟩ := hi
  exact ha _ ht

lemma LeavesAlone.registers (ha : a.LeavesAlone id s) {c : PendingCall} (hr : a.Registers s c) :
    c.infoHash ≠ id := by
  obtain ⟨n, io, rfl, ht⟩ := hr
  exact ha _ ht

lemma Gone.saves (hg : s.Gone x id) (ha : a.LeavesAlone id s) {r : Nat} (hr : a.saves s r) :
    (s.sess r).torrent.infoHash ≠ id := by
  rcases hr with hr | ⟨c, hi⟩
  · cases a with
    | poll n io =>
      simp only [Act.scope] at hr
      split at hr
      · rename_i t ht
        intro hid
        have hno := ha t ht
        cases t with
        | addListen | pendingOpen => cases hr
        | _ => exact hno ⟨r, hr, hid⟩
      · exact hr.elim
    | _ => exact hr.elim
  · have hne := LeavesAlone.inserts ha hi
    obtain ⟨n, io, initial, startPaused, rfl, ht⟩ := hi
    obtain ⟨-, -, htorrent, -⟩ :=
      (hg.wf.tasks _ (List.mem_of_getElem? ht)).constructs r c rfl rfl
    rwa [htorrent]

lemma Gone.stepCase (hg : s.Gone x id) (ha : a.LeavesAlone id s) (hs : StepCase x s e a s') :
    s'.Gone x id := by
  refine ⟨hg.wf.stepCase hs, ?_, ?_, fun hdir => ?_⟩
  · rcases hs.torrents id with heq | ⟨-, heq⟩ | ⟨c, r, hi, hid, -⟩
    · exact heq.trans hg.torrents
    · exact heq
    · exact absurd hid (LeavesAlone.inserts ha hi)
  · rcases hs.pending id with heq | ⟨-, heq⟩ | ⟨-, heq⟩ | ⟨c, hr, hid, -⟩
    · exact heq.trans hg.pending
    · exact heq
    · exact heq
    · exact absurd hid (LeavesAlone.registers ha hr)
  · rcases hs.resumeFiles fun r hr => hg.saves ha hr with heq | ⟨-, heq⟩
    · exact heq.trans (hg.resumeFile (hs.options ▸ hdir))
    · exact heq

/-- What `remove_torrent` does at once. -/
lemma removeTorrent_gone (hwf : s.Wf x) {d : Bool} (hr : s.removeTorrent e id d = .ok s')
    (hfile : s.options.stateDir.isSome → id ∈ s.torrents ∨ s.resumeFiles.lookup id = none) :
    s'.Gone x id := by
  have hstep : s.step x (e, .removeTorrent id d) = some s' := by simp [step, hr, after]
  unfold removeTorrent at hr
  split at hr <;> cases hr
  have hctrl : Ctrl .none (s.takeOut id d)
      ((((s.takeOut id d).dhtSend (.removeTorrent id)).emit (.removed id)).evaluateQueue e) :=
    ((dhtSend_ctrl (by trivial)).trans emit_ctrl).trans evaluateQueue_ctrl
  refine ⟨hwf.stepCase (step_cases hstep), ?_, ?_, fun hdir => ?_⟩
  · exact (congrArg (AList.lookup id) hctrl.keeps.torrents).trans (AList.lookup_erase ..)
  · exact (congrArg (AList.lookup id) hctrl.keeps.pending).trans (AList.lookup_erase ..)
  · rw [hctrl.keeps.options] at hdir
    rw [hctrl.resumeFiles id fun _ hr => hr.elim]
    simp only [takeOut]
    split
    · exact AList.lookup_erase ..
    · rename_i hno
      exact (hfile hdir).resolve_left fun hid => hno ⟨hid, hdir⟩

/-- A removed torrent stays removed, with its resume file, as long as no task that was at work on it
inserts it or writes its resume file. -/
theorem removeTorrent_final (x : Ext) (options : SessionOptions) (categories : Categories)
    (resumeFiles : ResumeFiles) (as : List (Env × Act)) (s s₁ s' : Session)
    (hrun : Run (step x) anyStep (Session.new options categories resumeFiles) as s)
    (e : Env) (id : TorrentId) (deleteFiles : Bool)
    (hremove : s.removeTorrent e id deleteFiles = .ok s₁)
    (hfile : s.options.stateDir.isSome →
      id ∈ s.torrents ∨ s.resumeFiles.lookup id = none)
    (bs : List (Env × Act)) (hlater : Run (step x) (fun s a => a.2.LeavesAlone id s) s₁ bs s') :
    s'.torrents.lookup id = none ∧ s'.pending.lookup id = none ∧
      (s'.options.stateDir.isSome → s'.resumeFiles.lookup id = none) := by
  have hgone := removeTorrent_gone (run_wf hrun (new_wf ..)) hremove hfile
  have hend := hlater.inv (fun hg ha hs => hg.stepCase ha (step_cases hs)) hgone
  exact ⟨hend.torrents, hend.pending, hend.resumeFile⟩

/-- A session that keeps resume files in the working directory. -/
def resumable : Session := Session.new { stateDir := some [] } ∅ ∅

/-- Steps that lead somewhere from `resumable`. -/
def resumableAfter (as : List (Env × Act))
    (h : (exec (step noExt) anyStep resumable as).isSome) : Session :=
  (exec (step noExt) anyStep resumable as).get h

/-- A torrent with a resume file is removed while another is added. -/
theorem removeTorrent_final_other :
    let s := resumableAfter (addOneByte 1 "/x") (by decide)
    (s.resumeFiles.lookup 1).isSome ∧ ∃ s₁ s', s.removeTorrent {} 1 false = .ok s₁ ∧
      Run (step noExt) (fun s a => a.2.LeavesAlone 1 s) s₁
        [({}, .addMeta 0 (oneByteFile 2) {} {}), ({}, .poll 2 {}), ({}, .poll 2 {})] s' ∧
      (s'.torrents.lookup 2).isSome ∧ s'.torrents.lookup 1 = none ∧ s'.pending.lookup 1 = none ∧
      (s'.options.stateDir.isSome → s'.resumeFiles.lookup 1 = none) :=
  have hremove := ok_after (resumableAfter (addOneByte 1 "/x") (by decide)) (by decide)
  have hlater := Run.of_isSome
  ⟨by decide, _, _, hremove, hlater, by decide,
    removeTorrent_final noExt _ ∅ ∅ _ _ _ _ (.of_isSome _) {} 1 false hremove
      (fun _ => .inl (by decide)) _ hlater⟩

/-- A torrent is added twice, and inserted by one of the calls while the other is at work. -/
def addedTwice : List (Env × Act) :=
  [({}, .addMeta 0 (oneByteFile 1) {} {}), ({}, .addMeta 1 (oneByteFile 1) {} {}),
    ({}, .poll 0 {}), ({}, .poll 1 {})]

/-- An add that was under way when its torrent was removed inserts it again and writes its resume
file again. -/
theorem removeTorrent_undone :
    let s := resumableAfter addedTwice (by decide)
    Run (step noExt) anyStep resumable addedTwice s ∧ ∃ s₁ s', s.removeTorrent {} 1 false = .ok s₁ ∧
      s₁.torrents.lookup 1 = none ∧ s₁.resumeFiles.lookup 1 = none ∧ Run (step noExt) anyStep s₁
      [({}, .poll 0 {}), ({}, .poll 2 {})] s' ∧ (s'.torrents.lookup 1).isSome ∧
      (s'.resumeFiles.lookup 1).isSome :=
  ⟨.of_isSome _, _, _, ok_after (resumableAfter addedTwice (by decide)) (by decide), by decide,
    by decide, .of_isSome, by decide, by decide⟩

end Session

end BitRev
