import BitRev.Session.Changes

/-!
# One session for an info hash

An add call looks for its torrent in the session before its first `await` and inserts it after the
last one. `add_single`: if a call that finds nothing is the only one at work on its info hash, then
one session object at most is made for the hash, every call returns the hash, and what is in the
session is the object that was made, with its writer.
-/

namespace BitRev

open BitRev.Task List Option

def Task.adds (h : TorrentId) (s : Session) : Task → Bool
  | .addOpen c | .addVerify c _ | .addListen c _ _ _ => c.torrent.infoHash = h
  | .pendingOpen c => c.infoHash = h
  | .promoter p => (s.pend p).placeholder.infoHash = h
  | _ => false

/-- An add call for `h` that does not find it in the session is the only one at work on it, and
`h` is not removed. -/
def Act.AddsAlone (h : TorrentId) (s : Session) : Act → Prop
  | .addMeta _ m _ _ => m.infoHash = h → s.known h = false → ∀ t ∈ s.tasks, t.adds h s = false
  | .addMagnet _ m _ => m.infoHash = h → s.known h = false → ∀ t ∈ s.tasks, t.adds h s = false
  | .addInfoHash _ h' _ _ => h' = h → s.known h = false → ∀ t ∈ s.tasks, t.adds h s = false
  | .removeTorrent id _ => id ≠ h
  | _ => True

def Act.Numbered (calls : Nat → TorrentId) : Act → Prop
  | .addMeta call m _ _ => calls call = m.infoHash
  | .addMagnet call m _ => calls call = m.infoHash
  | .addInfoHash call h _ _ => calls call = h
  | _ => True

instance (h : TorrentId) (s : Session) (a : Act) : Decidable (a.AddsAlone h s) := by
  rcases a <;> unfold Act.AddsAlone <;> infer_instance

instance (calls : Nat → TorrentId) (a : Act) : Decidable (a.Numbered calls) := by
  rcases a <;> unfold Act.Numbered <;> infer_instance

section

variable {x : Ext} {s s' : Session} {e : Env} {a : Act} {h : TorrentId} {t : Task}

lemma Task.isLight_adds (hl : t.isLight) : t.adds h s = false := by
  cases t <;> first | rfl | cases hl

lemma Task.adding_adds {c : AddCall} (hc : t.adding = some c) :
    t.adds h s ↔ c.torrent.infoHash = h := by
  cases t <;> cases hc <;> simp [adds]

lemma Task.Wf.adds (ht : t.Wf s) (hg : Grows s s') : t.adds h s' = t.adds h s := by
  cases t with
  | promoter p => simp only [adds, hg.placeholder p (ht.owner p rfl)]
  | _ => rfl

lemma Session.Wf.begins_adds (hwf : s.Wf x) (hb : a.Begins x s t) (ht : t.adds h s)
    (ha : a.AddsAlone h s) :
    (a.polled s).any (adds h s) ∨ s.known h = false ∧ ∀ t ∈ s.tasks, t.adds h s = false := by
  cases hb with
  | recheck | setSavePath => cases ht
  | addMeta hk hnew =>
    have hid := (Torrent.new_meta hnew).1.symm.trans ((adding_adds rfl).1 ht)
    exact .inr ⟨hid ▸ hk, ha hid (hid ▸ hk)⟩
  | addMagnet outputDir hk =>
    have hid := of_decide_eq_true ht
    exact .inr ⟨hid ▸ hk, ha hid (hid ▸ hk)⟩
  | addInfoHash c hk _ hc _ =>
    have hid := hc.symm.trans (of_decide_eq_true ht)
    exact .inr ⟨hid ▸ hk, ha hid (hid ▸ hk)⟩
  | @poll n io t₀ t' ht₀ hf =>
    refine .inl (StepCase.polled_any ht₀ ?_)
    have hwf' := hwf.follows (hwf.tasks _ (mem_of_getElem? ht₀)) hf
    cases hf with
    | addVerify => exact ht
    | promoter =>
      rw [adding_adds rfl, ← (hwf'.adding _ _ rfl rfl).2] at ht
      exact decide_eq_true ht
    | _ => cases ht

lemma StepCase.starts_adds (hs : StepCase x s e a s') (hwf : s.Wf x) (ht : t ∈ s'.tasks)
    (hst : a.Starts x s t) (hadds : t.adds h s') (ha : a.AddsAlone h s) :
    (a.polled s).any (adds h s) ∨ s.known h = false ∧ ∀ t ∈ s.tasks, t.adds h s = false := by
  cases hst with
  | begins hb => exact hwf.begins_adds hb ((hwf.begins hb).adds hs.grows ▸ hadds) ha
  | verify ho =>
    obtain ⟨n, io, rfl, ht'⟩ := ho
    exact .inl (StepCase.polled_any ht' hadds)
  | listen initial hi =>
    rcases hi with ⟨⟨n, io, rfl, ht'⟩, -⟩ | ⟨n, io, rfl, ht'⟩ <;>
      exact .inl (StepCase.polled_any ht' hadds)
  | writer => cases hadds
  | promoter hr hm =>
    obtain ⟨c, hr', -, -, -, hp, -⟩ :=
      hs.registers le_rfl (((hwf.stepCase hs).tasks _ ht).owner _ rfl)
    obtain ⟨n, io, rfl, ht'⟩ := hr'
    simp only [adds, hp, Session.placeholder] at hadds
    exact .inl (StepCase.polled_any ht' hadds)

def Session.addsOf (s : Session) (h : TorrentId) : Nat := s.tasks.countP (adds h s)

lemma Session.Wf.addsOf_grows (hwf : s.Wf x) (hg : Grows s s') (a : Act) :
    (s.before a).tasks.countP (adds h s') +
      (if (a.polled s).any (adds h s) then 1 else 0) = s.addsOf h := by
  rw [countP_congr fun t ht => by rw [(hwf.tasks t (StepCase.mem_before ht)).adds hg]]
  exact StepCase.countP_before s a (adds h s)

lemma StepCase.addsOf (hs : StepCase x s e a s') (hwf : s.Wf x) (ha : a.AddsAlone h s) :
    s'.addsOf h ≤ s.addsOf h ∨ s.known h = false ∧ s'.addsOf h ≤ 1 := by
  have hbefore := hwf.addsOf_grows (h := h) hs.grows a
  rcases hs.countP_tasks (q := adds h s') fun t ht => isLight_adds ht with
    heq | ⟨t, ht, hst, hadds, heq⟩
  · exact .inl (by rw [Session.addsOf, heq]; omega)
  · rcases hs.starts_adds hwf ht hst hadds ha with hpoll | ⟨hk, hnone⟩
    · rw [if_pos hpoll] at hbefore
      exact .inl (by rw [Session.addsOf, heq]; omega)
    · have hzero : s.addsOf h = 0 := countP_eq_zero.2 fun t ht => by simp [hnone t ht]
      exact .inr ⟨hk, by rw [Session.addsOf, heq]; omega⟩

/-- An insertion ends an add. -/
lemma StepCase.addsOf_inserts (hs : StepCase x s e a s') (hwf : s.Wf x) {c : AddCall} {r : Nat}
    (hi : a.Inserts s c r) (hid : c.torrent.infoHash = h) : s'.addsOf h + 1 = s.addsOf h := by
  have hbefore := hwf.addsOf_grows (h := h) hs.grows a
  obtain ⟨n, initial, ⟨io, rfl⟩, hc⟩ := hs.inserts hi
  obtain ⟨n', io', initial', startPaused, ha, ht⟩ := hi
  cases ha
  have hpoll : ((Act.poll n io).polled s).any (adds h s) :=
    StepCase.polled_any ht (decide_eq_true hid)
  rw [if_pos hpoll] at hbefore
  rw [← hbefore, Session.addsOf, hc.countP fun t ht => isLight_adds ht]
  show ((s.without n).tasks ++ [writer r .recv]).countP (adds h s') + 1 = _
  rw [countP_append]
  rfl

end

namespace Session

variable {x : Ext} {s s' : Session} {e : Env} {a : Act} {h : TorrentId} {calls : Nat → TorrentId}

/-! ## Writers -/

/-- The writer of every torrent that is in use runs. -/
structure Written (x : Ext) (s : Session) : Prop where
  wf : s.Wf x
  writer : ∀ r < s.nextSess, (s.sess r).running → ∃ t ∈ s.tasks, t.writes = some r

lemma new_written (options categories resumeFiles) :
    (Session.new options categories resumeFiles).Written x :=
  ⟨new_wf .., fun r hr => absurd hr (Nat.not_lt_zero r)⟩

lemma Written.stepCase (hw : s.Written x) (hs : StepCase x s e a s') : s'.Written x := by
  have hwf' := hw.wf.stepCase hs
  refine ⟨hwf', fun r hr hrun => ?_⟩
  by_cases hlt : r < s.nextSess
  · rcases hs.running hlt hrun with hrun | ⟨c, hi⟩
    · obtain ⟨t, ht, hwrites⟩ := hw.writer r hlt hrun
      exact hs.writes_kept ht hwrites
    · exact ⟨_, (hs.inserts_stored hi).2, rfl⟩
  · -- A new object is still under construction.
    have hnew : s.nextSess < s'.nextSess := (Nat.le_of_not_lt hlt).trans_lt hr
    obtain ⟨c, -, hnext, -⟩ := hs.opens hnew
    obtain ⟨t, ht, hmakes⟩ := hs.opens_making hnew
    obtain ⟨c', hc'⟩ := constructs_adding hmakes
    obtain rfl : r = s.nextSess := by omega
    have hidle := ((hwf'.tasks t ht).constructs _ c' hmakes hc').2.1
    exact absurd (hrun.symm.trans hidle) (by decide)

/-! ## Call numbers -/

structure Numbered (calls : Nat → TorrentId) (s : Session) : Prop where
  adding : ∀ t ∈ s.tasks, ∀ c, t.adding = some c → ∀ call, c.call = some call →
    calls call = c.torrent.infoHash
  pending : ∀ c, .pendingOpen c ∈ s.tasks → calls c.call = c.infoHash

lemma new_numbered (options categories resumeFiles) :
    (Session.new options categories resumeFiles).Numbered calls :=
  ⟨fun _ ht => absurd ht not_mem_nil, fun _ hc => absurd hc not_mem_nil⟩

lemma Numbered.stepCase (hn : s.Numbered calls) (ha : a.Numbered calls)
    (hs : StepCase x s e a s') : s'.Numbered calls := by
  constructor
  · intro t ht c hc call hcall
    rcases hs.adding ht hc with ⟨t', ht', hc', -⟩ | ⟨⟨n, io, rfl, ht'⟩, -⟩ | ⟨rfl, hb⟩
    · exact hn.adding t' ht' c hc' call hcall
    · exact hn.adding _ (mem_of_getElem? ht') c rfl call hcall
    · cases hb with
      | addMeta _ hnew =>
        cases hcall
        exact ha.trans (Torrent.new_meta hnew).1.symm
      | poll _ hf =>
        cases hf
        cases hcall
  · intro c hc
    rcases hs.task_cases hc with hc | ⟨hl, -⟩ | hst
    · exact hn.pending c hc
    · cases hl
    · cases hst with
      | begins hb =>
        cases hb with
        | addMagnet outputDir _ => exact ha
        | addInfoHash c _ hcall hid _ => exact hcall ▸ hid ▸ ha
        | poll _ hf => cases hf

lemma Numbered.returns (hn : s.Numbered calls) (ha : a.Numbered calls) {y : Nat × TorrentId}
    (hy : StepCase.Returns s s' a y) : calls y.1 = y.2 := by
  rcases hy with hy | ⟨c, r, ⟨n, io, initial, startPaused, rfl, ht⟩, hcall, hid⟩ |
    ⟨c, ⟨n, io, rfl, ht⟩, rfl, -⟩
  · cases a with
    | addMeta | addMagnet | addInfoHash =>
      obtain ⟨rfl, -⟩ := hy
      exact ha
    | poll n io =>
      simp only [Act.scope] at hy
      split at hy <;> exact hy.elim
    | _ => exact hy.elim
  · exact (hn.adding _ (mem_of_getElem? ht) c rfl y.1 hcall).trans hid
  · exact hn.pending c (mem_of_getElem? ht)

/-! ## One object -/

/-- One add of `h` at most is at work, and none once `h` is a torrent of the session; the objects
made for `h` since there were `first` of them are under construction or that torrent. -/
structure Single (x : Ext) (h : TorrentId) (first : Nat) (s : Session) : Prop where
  wf : s.Wf x
  one : s.addsOf h ≤ 1
  none : ∀ r, s.torrents.lookup h = some r → s.addsOf h = 0
  made : ∀ r, first ≤ r → r < s.nextSess → (s.sess r).torrent.infoHash = h →
    (∃ t ∈ s.tasks, t.constructs = some r) ∨ s.torrents.lookup h = some r
  fresh : ∀ t ∈ s.tasks, t.adds h s → ∀ r, t.constructs = some r → first ≤ r
  stored : ∀ r, s.torrents.lookup h = some r → first ≤ r

variable {first : Nat}

lemma addsOf_pos {t : Task} (ht : t ∈ s.tasks) (hadds : t.adds h s) : s.addsOf h ≠ 0 :=
  fun hzero => countP_eq_zero.1 hzero t ht hadds

/-- A session object that is made for `h` is made by a task that adds `h`. -/
lemma Wf.making_adds (hwf : s.Wf x) {t : Task} {r : Nat} (ht : t ∈ s.tasks)
    (hr : t.constructs = some r) (hid : (s.sess r).torrent.infoHash = h) : t.adds h s := by
  obtain ⟨c, hc⟩ := constructs_adding hr
  obtain ⟨-, -, htorrent, -⟩ := (hwf.tasks t ht).constructs r c hr hc
  rw [adding_adds hc, ← htorrent, hid]

lemma Single.unique (hs : s.Single x h first) {r r' : Nat} (hr : first ≤ r) (hlt : r < s.nextSess)
    (hid : (s.sess r).torrent.infoHash = h) (hr' : first ≤ r') (hlt' : r' < s.nextSess)
    (hid' : (s.sess r').torrent.infoHash = h) : r = r' := by
  rcases hs.made r hr hlt hid with ⟨t, ht, hmakes⟩ | hstored <;>
    rcases hs.made r' hr' hlt' hid' with ⟨t', ht', hmakes'⟩ | hstored'
  · have heq := Pool.eq_of_countP_le_one hs.one ht ht' (hs.wf.making_adds ht hmakes hid)
      (hs.wf.making_adds ht' hmakes' hid')
    exact some.inj (hmakes.symm.trans ((congrArg _ heq).trans hmakes'))
  · exact absurd (hs.none r' hstored') (addsOf_pos ht (hs.wf.making_adds ht hmakes hid))
  · exact absurd (hs.none r hstored) (addsOf_pos ht' (hs.wf.making_adds ht' hmakes' hid'))
  · exact some.inj (hstored.symm.trans hstored')

lemma inserts_adds {c : AddCall} {r : Nat} (hi : a.Inserts s c r) (hid : c.torrent.infoHash = h) :
    ∃ t ∈ s.tasks, t.adds h s ∧ t.constructs = some r := by
  obtain ⟨n, io, initial, startPaused, rfl, ht⟩ := hi
  exact ⟨_, mem_of_getElem? ht, (adding_adds rfl).2 hid, rfl⟩

lemma Single.stepCase (hs : s.Single x h first) (hfirst : first ≤ s.nextSess)
    (ha : a.AddsAlone h s) (hc : StepCase x s e a s') : s'.Single x h first := by
  have hwf' := hs.wf.stepCase hc
  have hg := hc.grows
  have hne : ∀ d, a ≠ .removeTorrent h d := by
    rintro d rfl
    exact ha rfl
  have hcount := hc.addsOf hs.wf ha
  -- An inserted torrent was the one add of `h` at work.
  have hlast : ∀ c r, a.Inserts s c r → c.torrent.infoHash = h → s'.addsOf h = 0 := by
    intro c r hi hid
    have hend := hc.addsOf_inserts hs.wf hi hid
    have hone := hs.one
    omega
  refine ⟨hwf', ?_, fun r hr => ?_, fun r hr hlt hid => ?_, fun t ht hadds r hr => ?_,
    fun r hr => ?_⟩
  · rcases hcount with hle | ⟨-, hle⟩
    · exact hle.trans hs.one
    · exact hle
  · rcases hc.torrents h with heq | ⟨⟨d, rfl⟩, -⟩ | ⟨c, r', hi, hid, -⟩
    · rw [heq] at hr
      have hknown : s.known h := by
        simp [known, ← AList.lookup_isSome, hr]
      rcases hcount with hle | ⟨hk, -⟩
      · exact Nat.le_zero.1 (hle.trans_eq (hs.none r hr))
      · exact absurd (hk.symm.trans hknown) (by decide)
    · exact absurd rfl (hne d)
    · exact hlast c r' hi hid
  · by_cases hold : r < s.nextSess
    · rw [hg.torrent r hold] at hid
      rcases hs.made r hr hold hid with ⟨t, ht, hmakes⟩ | hstored
      · obtain ⟨c, hadding⟩ := constructs_adding hmakes
        rcases hc.making_kept ht hadding hmakes with ⟨t', ht', -, hmakes'⟩ | hi
        · exact .inl ⟨t', ht', hmakes'⟩
        · have hhash := (adding_adds hadding).1 (hs.wf.making_adds ht hmakes hid)
          exact .inr (hhash ▸ (hc.inserts_stored hi).1)
      · refine .inr ?_
        rcases hc.torrents h with heq | ⟨⟨d, rfl⟩, -⟩ | ⟨c, r', hi, hid', -⟩
        · exact heq.trans hstored
        · exact absurd rfl (hne d)
        · obtain ⟨t, ht, hadds, -⟩ := inserts_adds hi hid'
          exact absurd (hs.none r hstored) (addsOf_pos ht hadds)
    · have hnew : s.nextSess < s'.nextSess := (Nat.le_of_not_lt hold).trans_lt hlt
      obtain ⟨c, -, hnext, -⟩ := hc.opens hnew
      obtain rfl : r = s.nextSess := by omega
      exact .inl (hc.opens_making hnew)
  · obtain ⟨c, hadding⟩ := constructs_adding hr
    have hid := (adding_adds hadding).1 hadds
    rcases hc.adding ht hadding with ⟨t', ht', hadding', hr'⟩ | ⟨-, hr'⟩ | ⟨rfl, -⟩
    · exact hs.fresh t' ht' ((adding_adds hadding').2 hid) r (hr'.trans hr)
    · cases hr'.symm.trans hr
      exact hfirst
    · cases hr
  · rcases hc.torrents h with heq | ⟨⟨d, rfl⟩, -⟩ | ⟨c, r', hi, hid, heq⟩
    · exact hs.stored r (heq ▸ hr)
    · exact absurd rfl (hne d)
    · obtain rfl : r' = r := some.inj (heq.symm.trans hr)
      obtain ⟨t, ht, hadds, hmakes⟩ := inserts_adds hi hid
      exact hs.fresh t ht hadds r' hmakes

def Answers (calls : Nat → TorrentId) (h : TorrentId) (old : List (Nat × TorrentId))
    (s : Session) : Prop :=
  ∃ new, s.returned = old ++ new ∧ ∀ y ∈ new, calls y.1 = h → y.2 = h ∧ s.known h

lemma Answers.stepCase {old : List (Nat × TorrentId)} (hs : s.Answers calls h old)
    (hn : s.Numbered calls) (hnum : a.Numbered calls) (ha : a.AddsAlone h s)
    (hc : StepCase x s e a s') : s'.Answers calls h old := by
  have hne : ∀ d, a ≠ .removeTorrent h d := by
    rintro d rfl
    exact ha rfl
  obtain ⟨new, hnew, hall⟩ := hs
  obtain ⟨new', hnew', hall'⟩ := hc.returned
  refine Growth.append ⟨new, hnew, fun y hy hcall => ?_⟩ ⟨new', hnew', fun y hy hcall => ?_⟩
  · obtain ⟨hid, hk⟩ := hall y hy hcall
    exact ⟨hid, hc.known hk hne⟩
  · have hid : y.2 = h := (hn.returns hnum (hall' y hy)).symm.trans hcall
    exact ⟨hid, hid ▸ (hall' y hy).known hc⟩

/-- From a state in which `h` is not in the session and not being added: if every add call that
does not find `h` is the only one at work on it, one session object at most is made for `h`, the
calls for `h` return `h`, and what is in the session is that object, with its writer running. -/
theorem add_single (x : Ext) (options : SessionOptions) (categories : Categories)
    (resumeFiles : ResumeFiles) (calls : Nat → TorrentId)
    (as : List (Env × Act)) (s : Session)
    (hrun : Run (step x) (fun _ a => a.2.Numbered calls)
      (Session.new options categories resumeFiles) as s)
    (h : TorrentId) (hnew : s.known h = false) (hidle : ∀ t ∈ s.tasks, t.adds h s = false)
    (bs : List (Env × Act)) (s' : Session)
    (hadds : Run (step x) (fun s a => a.2.Numbered calls ∧ a.2.AddsAlone h s) s bs s') :
    (∀ r r', s.nextSess ≤ r → r < s'.nextSess → (s'.sess r).torrent.infoHash = h →
      s.nextSess ≤ r' → r' < s'.nextSess → (s'.sess r').torrent.infoHash = h → r = r') ∧
    (∃ new, s'.returned = s.returned ++ new ∧
      ∀ y ∈ new, calls y.1 = h → y.2 = h ∧ s'.known h) ∧
    ∀ r, s'.torrents.lookup h = some r → s.nextSess ≤ r ∧ r < s'.nextSess ∧
      (s'.sess r).torrent.infoHash = h ∧ (s'.sess r).running ∧
      ∃ t ∈ s'.tasks, t.writes = some r := by
  have hstart : s.Written x ∧ s.Numbered calls := by
    refine hrun.inv (I := fun s => s.Written x ∧ s.Numbered calls) (fun hi ha hs => ?_)
      ⟨new_written .., new_numbered ..⟩
    exact ⟨hi.1.stepCase (step_cases hs), hi.2.stepCase ha (step_cases hs)⟩
  have hnone : s.torrents.lookup h = none := by
    simp only [known, Bool.or_eq_false_iff, decide_eq_false_iff_not] at hnew
    exact AList.lookup_eq_none.2 hnew.1
  have hsingle : s.Single x h s.nextSess :=
    ⟨hstart.1.wf, by rw [addsOf, countP_eq_zero.2 fun t ht => by simp [hidle t ht]]; decide,
      fun r hr => by simp [hnone] at hr, fun r hr hlt => absurd hlt (not_lt.2 hr),
      fun t ht hadds => absurd ((hidle t ht).symm.trans hadds) (by decide),
      fun r hr => by simp [hnone] at hr⟩
  obtain ⟨hwritten, -, -, hend, hanswers⟩ := hadds.inv
    (I := fun s' => s'.Written x ∧ s'.Numbered calls ∧ s.nextSess ≤ s'.nextSess ∧
      s'.Single x h s.nextSess ∧ s'.Answers calls h s.returned)
    (fun hi ha hs => by
      obtain ⟨hw, hn, hle, hi, hans⟩ := hi
      exact ⟨hw.stepCase (step_cases hs), hn.stepCase ha.1 (step_cases hs),
        hle.trans (step_cases hs).grows.nextSess, hi.stepCase hle ha.2 (step_cases hs),
        hans.stepCase hn ha.1 ha.2 (step_cases hs)⟩)
    ⟨hstart.1, hstart.2, le_rfl, hsingle, [], by simp⟩
  refine ⟨fun r r' hr hlt hid hr' hlt' hid' => hend.unique hr hlt hid hr' hlt' hid', hanswers,
    fun r hr => ?_⟩
  obtain ⟨hlt, hid, hrunning⟩ := hend.wf.torrents h r hr
  exact ⟨hend.stored r hr, hlt, hid, hrunning, hwritten.writer r hlt hrunning⟩

/-- A second add of a torrent that is already there returns it. -/
theorem add_single_again :
    ∃ s', Run (step noExt) (fun s a => a.2.Numbered (fun _ => 1) ∧ a.2.AddsAlone 1 s)
        (Session.new {} ∅ ∅)
        (addOneByte 1 "/x" ++ [(({} : Env), .addMeta 1 (oneByteFile 1) {} {})]) s' ∧
      s'.returned = [(0, 1), (1, 1)] ∧ s'.torrents.lookup 1 = some 0 ∧
      (s'.sess 0).running ∧ ∃ t ∈ s'.tasks, t.writes = some 0 :=
  have hrun := Run.of_isSome
  have hend := add_single noExt {} ∅ ∅ (fun _ => 1) [] _ (.nil _) 1 (by decide) (by decide) _ _ hrun
  have hstored := hend.2.2 0 (by decide)
  ⟨_, hrun, by decide, by decide, hstored.2.2.2.1, hstored.2.2.2.2⟩

/-- Two calls add a torrent that neither finds: two session objects are made for it and run, and
the session holds the one of the second. -/
theorem add_single_race :
    ∃ s', Run (step noExt) (fun _ a => a.2.Numbered (fun _ => 1)) (Session.new {} ∅ ∅)
        [({}, .addMeta 0 (oneByteFile 1) {} {}), ({}, .addMeta 1 (oneByteFile 1) {} {}),
          ({}, .poll 0 {}), ({}, .poll 0 {}), ({}, .poll 0 {}), ({}, .poll 0 {})] s' ∧
      s'.returned = [(0, 1), (1, 1)] ∧ s'.torrents.lookup 1 = some 1 ∧
      ∀ r < 2, (s'.sess r).torrent.infoHash = 1 ∧ (s'.sess r).running ∧
        ∃ t ∈ s'.tasks, t.writes = some r :=
  ⟨_, .of_isSome, by decide, by decide, by decide⟩

end Session

end BitRev
