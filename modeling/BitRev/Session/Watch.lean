import BitRev.Framework.Bytes
import BitRev.Framework.Run

/-!
# The watch directory

`poll_watch_dir` of `session.rs`: at every poll the files of the watch directory whose path has not
been polled before are read, and those that are torrents or magnet links are handed to
`add_torrent`. The files are given to a poll as `collect_watch_files` lists them, with their
contents; what becomes of a file between polls is open, so `finish_watch_file` needs no model.

`WatchDir.handed_or_kept` is that every file that parses is handed over, if paths are not used again.
-/

namespace BitRev

open List Option

structure WatchFile where
  path : Bytes
  /-- `none` if the file cannot be read. -/
  contents : Option Bytes

/-- What the contents of a torrent file and of a magnet file decode to, and which paths are texts. -/
structure WatchParsers (α : Type) where
  torrent : Bytes → Option α
  magnet : Bytes → Option α
  utf8 : Bytes → Bool

namespace WatchFile

def extension (f : WatchFile) : Option Bytes :=
  match ((f.path.splitOn (chr '/')).getLastD []).reverse.span (· ≠ chr '.') with
  | (ext, _ :: _ :: _) => some ext.reverse
  | _ => none

def hasExtension (f : WatchFile) (ext : String) : Bool :=
  f.extension.any fun e => e.map toAsciiLowercase = ascii ext

def isWatchTorrent (f : WatchFile) : Bool := f.hasExtension "torrent"

def isMagnet (f : WatchFile) : Bool :=
  f.hasExtension "magnet" || f.contents.any (ascii "magnet:").isPrefixOf

variable {α : Type} (x : WatchParsers α)

def parse (f : WatchFile) : Option α :=
  if f.isWatchTorrent then f.contents.bind x.torrent
  else if f.isMagnet then f.contents.bind x.magnet
  else none

/-- What `ingest_watch_path` hands to `add_torrent`. -/
def ingest (f : WatchFile) : Option α :=
  if f.isWatchTorrent && !x.utf8 f.path then none else f.parse x

end WatchFile

structure WatchPoll where
  present : List WatchFile
  handed : List WatchFile

/-- The paths polled, and the polls so far, the latest first. -/
structure WatchDir where
  seen : List Bytes := []
  past : List WatchPoll := []

namespace WatchDir

variable {α : Type} (x : WatchParsers α)

/-- The loop of `poll_watch_dir`. -/
def poll : List Bytes → List WatchFile → List Bytes × List WatchFile
  | seen, [] => (seen, [])
  | seen, f :: fs =>
    if f.path ∈ seen then poll seen fs
    else
      let (seen, handed) := poll (f.path :: seen) fs
      (seen, if (f.ingest x).isSome then f :: handed else handed)

/-- A poll of a directory, in which no path is there twice. -/
def step (w : WatchDir) (dir : List WatchFile) : Option WatchDir :=
  if (dir.map (·.path)).Nodup then
    let (seen, handed) := poll x w.seen dir
    some ⟨seen, ⟨dir, handed⟩ :: w.past⟩
  else none

/-- The directory when a poll comes: a torrent or magnet file that parses, and whose path was there
at an earlier poll, is still there from the last one, with the same contents; and the paths of such
torrent files are texts. -/
structure Lasting (w : WatchDir) (dir : List WatchFile) : Prop where
  same : ∀ f ∈ dir, (f.parse x).isSome → ∀ p ∈ w.past, f.path ∈ p.present.map (·.path) →
    ∃ last ∈ w.past.head?, f ∈ last.present
  text : ∀ f ∈ dir, (f.parse x).isSome → f.isWatchTorrent → x.utf8 f.path

/-- The file was handed over at some poll, and has been there at every poll since. -/
def Kept (f : WatchFile) (past : List WatchPoll) : Prop :=
  ∃ later p earlier, past = later ++ p :: earlier ∧ f ∈ p.handed ∧ ∀ q ∈ later, f ∈ q.present

variable {x} {w w' : WatchDir} {dir : List WatchFile}

lemma seen_poll (seen : List Bytes) (fs : List WatchFile) (path : Bytes) :
    path ∈ (poll x seen fs).1 ↔ path ∈ seen ∨ path ∈ fs.map (·.path) := by
  induction fs generalizing seen with
  | nil => simp [poll]
  | cons f fs ih =>
    rw [poll]
    split
    · rename_i hf
      rw [ih, map_cons, mem_cons]
      exact ⟨fun h => h.imp_right .inr, fun h => by rcases h with h | rfl | h <;> simp [*]⟩
    · rw [ih, map_cons, mem_cons, mem_cons]
      tauto

lemma handed_poll {f : WatchFile} (hf : (f.ingest x).isSome) (seen : List Bytes)
    (fs : List WatchFile) (hmem : f ∈ fs) (hnew : f.path ∉ seen)
    (hnodup : (fs.map (·.path)).Nodup) : f ∈ (poll x seen fs).2 := by
  induction fs generalizing seen with
  | nil => cases hmem
  | cons g gs ih =>
    rw [map_cons, nodup_cons] at hnodup
    rcases mem_cons.1 hmem with rfl | hmem
    · simp [poll, hnew, hf]
    · have hne : f.path ≠ g.path := fun h =>
        hnodup.1 (h ▸ mem_map_of_mem hmem)
      rw [poll]
      split
      · exact ih seen hmem hnew hnodup.2
      · have := ih (g.path :: seen) hmem (by simp [hne, hnew]) hnodup.2
        dsimp only
        split <;> simp [this]

/-- What holds between polls. -/
structure Inv (x : WatchParsers α) (w : WatchDir) : Prop where
  seen : ∀ path, path ∈ w.seen ↔ ∃ p ∈ w.past, path ∈ p.present.map (·.path)
  kept : ∀ last ∈ w.past.head?, ∀ f ∈ last.present, (f.parse x).isSome → Kept f w.past

lemma inv_step (hw : Inv x w) (hl : Lasting x w dir) (h : w.step x dir = some w') : Inv x w' := by
  obtain ⟨hnodup, h⟩ := ite_none_right_eq_some.1 h
  cases h
  constructor
  · intro path
    rw [seen_poll, hw.seen]
    simp [or_comm]
  · rintro last hlast f hf hparse
    cases hlast
    by_cases hseen : f.path ∈ w.seen
    · -- The file is the one that was there at the last poll.
      obtain ⟨p, hp, hpath⟩ := (hw.seen f.path).1 hseen
      obtain ⟨last, hlast, hlp⟩ := hl.same f hf hparse p hp hpath
      obtain ⟨later, q, earlier, heq, hq, hall⟩ := hw.kept last hlast f hlp hparse
      exact ⟨_ :: later, q, earlier, by rw [heq]; rfl, hq, forall_mem_cons.2 ⟨hf, hall⟩⟩
    · have hingest : (f.ingest x).isSome := by
        unfold WatchFile.ingest
        split
        · rename_i hbad
          rw [Bool.and_eq_true, Bool.not_eq_true'] at hbad
          exact absurd (hl.text f hf hparse hbad.1) (by simp [hbad.2])
        · exact hparse
      exact ⟨[], _, w.past, rfl, handed_poll hingest w.seen dir hf hseen hnodup, by simp⟩

/-- Every torrent or magnet file that is there at a poll and parses is handed over at that poll, or
was with the same contents at an earlier one since when it has been there, if the directory was
lasting at every poll. -/
theorem handed_or_kept (x : WatchParsers α) (dirs : List (List WatchFile)) (dir : List WatchFile)
    (w w' : WatchDir) (hrun : Run (step x) (Lasting x) {} dirs w) (hl : Lasting x w dir)
    (hstep : w.step x dir = some w') (f : WatchFile) (hf : f ∈ dir)
    (hparse : (f.parse x).isSome) : Kept f w'.past := by
  have hinv : Inv x w := hrun.inv (fun hw hl h => inv_step hw hl h) ⟨by simp, by simp⟩
  obtain ⟨-, h⟩ := ite_none_right_eq_some.1 hstep
  cases h
  exact (inv_step hinv hl hstep).kept _ rfl f hf hparse

/-- Contents parse if there are any. -/
def someParsers : WatchParsers UInt8 := ⟨List.head?, List.head?, fun _ => true⟩

def oneFile (contents : Bytes) : WatchFile := ⟨ascii "w/a.torrent", some contents⟩

/-- A file that stays where it is for a second poll. -/
theorem handed_or_kept_twice : ∃ w w',
    Run (step someParsers) (Lasting someParsers) {} [[oneFile [1]]] w ∧
      w.step someParsers [oneFile [1]] = some w' ∧ Kept (oneFile [1]) w'.past :=
  have hrun := Run.cons ⟨by simp, fun _ _ _ _ => rfl⟩ rfl (.nil _)
  ⟨_, _, hrun, rfl, handed_or_kept someParsers _ [oneFile [1]] _ _ hrun
    ⟨fun _ hf _ _ _ _ => ⟨_, rfl, hf⟩, fun _ _ _ _ => rfl⟩ rfl _ (by simp) (by decide +kernel)⟩

/-- A file that is still empty at the first poll is never handed over. -/
theorem late_contents_ignored : ∃ w,
    Run (step someParsers) anyStep {} [[oneFile []], [oneFile [1]], [oneFile [1]]] w ∧
      ((oneFile [1]).parse someParsers).isSome ∧ ∀ p ∈ w.past, p.handed = [] :=
  ⟨_, .of_isSome, by decide +kernel, by decide +kernel⟩

end WatchDir

end BitRev
