import BitRev.Storage.Layout

/-!
# The files a storage has open

`Storage` (`storage/mod.rs`): a torrent, the directory its files are under and the path of each
open file. `openSync` opens the paths `file_path` gives; `relocate` renames every file, and renames
those already moved back when one of them fails.

* `Storage.Placed`: every open file is where `file_path` says, for the storage's own directory.
* `openSync_placed`, `relocate_placed`: opening gives such a storage; relocating keeps it, unless
  a file that was moved cannot be moved back.
-/

namespace BitRev

open BitRev.Path List

structure Storage where
  torrent : Torrent
  outputDir : Bytes
  /-- The path of each open file. -/
  files : List Bytes

/-- What the file system does during `relocate`. -/
inductive RelocateIo where
  /-- Syncing the files before the move fails. -/
  | syncError (msg : String)
  /-- The new path of file `i` is taken. -/
  | destinationExists (i : Nat) (msg : String)
  /-- Every file is moved. -/
  | moved
  /-- Moving file `k` fails; `undone` says of each file before it whether moving it back works. -/
  | failedAt (k : Nat) (undone : List Bool) (msg : String)
  deriving DecidableEq

namespace Storage

def openSync (t : Torrent) (outputDir : Bytes) : Storage := ⟨t, outputDir, t.filePaths outputDir⟩

section

variable (st : Storage)

def plan (newOutput : Bytes) : List Bytes :=
  (List.range st.files.length).map (st.torrent.filePath newOutput)

/-- The paths after moving file `k` has failed. -/
def rollBack (newOutput : Bytes) (k : Nat) (undone : List Bool) : List Bytes :=
  (st.files.zip (st.plan newOutput)).mapIdx fun i (src, dest) =>
    if i < k ∧ eq src dest = false ∧ undone[i]?.getD true = false then dest else src

/-- File `i` is to move. -/
def moves (newOutput : Bytes) (i : Nat) : Bool :=
  match st.files[i]?, (st.plan newOutput)[i]? with
  | some src, some dest => !eq src dest
  | _, _ => false

/-- `relocate`, with the error's text if it fails. `none` if the file system cannot do this here:
only a file that is to move can fail to. -/
def relocate (newOutput : Bytes) : RelocateIo → Option (Storage × Option String)
  | .syncError msg => some (st, some msg)
  | .destinationExists i msg =>
    if !eq st.outputDir newOutput && st.moves newOutput i then some (st, some msg) else none
  | .moved =>
    if eq st.outputDir newOutput then some (st, none)
    else
      some ({ st with
        outputDir := newOutput
        files := (st.files.zip (st.plan newOutput)).map fun (src, dest) =>
          if eq src dest then src else dest }, none)
  | .failedAt k undone msg =>
    if !eq st.outputDir newOutput && st.moves newOutput k then
      some ({ st with files := st.rollBack newOutput k undone }, some msg)
    else none

def samePaths (ps qs : List Bytes) : Prop := ps.map components = qs.map components

/-- Every open file is where the storage's directory and the torrent put it. -/
def Placed : Prop := samePaths st.files (st.torrent.filePaths st.outputDir)

end

/-- A file that was moved before a later one failed is moved back. -/
def RollsBack : RelocateIo → Prop
  | .failedAt _ undone _ => ∀ b ∈ undone, b = true
  | _ => True

instance (io : RelocateIo) : Decidable (RollsBack io) := by
  rcases io <;> unfold RollsBack <;> infer_instance

/-- Equal directories give equal paths. -/
lemma filePaths_congr (t : Torrent) {d d' : Bytes} (h : components d = components d') :
    samePaths (t.filePaths d) (t.filePaths d') := by
  have hfold : ∀ (path : List Bytes) {d d' : Bytes}, components d = components d' →
      components (path.foldl push d) = components (path.foldl push d') := by
    intro path
    induction path with
    | nil => exact fun h => h
    | cons c path ih => exact fun h => ih (components_push_congr h c)
  simp only [samePaths, Torrent.filePaths, map_map]
  refine map_congr_left fun i _ => ?_
  simp only [Function.comp_apply, Torrent.filePath]
  split
  · exact h
  · split
    · exact hfold _ h
    · exact h

lemma openSync_placed (t : Torrent) (outputDir : Bytes) : (openSync t outputDir).Placed := rfl

variable {st st' : Storage} {newOutput : Bytes} {io : RelocateIo} {err : Option String}

lemma Placed.length (h : st.Placed) : st.files.length = st.torrent.files.length := by
  simpa [samePaths, Torrent.filePaths] using congrArg List.length h

lemma plan_eq (h : st.Placed) : st.plan newOutput = st.torrent.filePaths newOutput := by
  rw [plan, h.length, Torrent.filePaths]

lemma components_zip :
    ∀ {ps qs : List Bytes}, ps.length = qs.length →
      ((ps.zip qs).map fun (src, dest) => if eq src dest then src else dest).map
        components = qs.map components
  | [], [], _ => rfl
  | p :: ps, q :: qs, h => by
    have ih := components_zip (Nat.succ.inj h)
    simp only [zip_cons_cons, map_cons, ih, cons.injEq, and_true]
    split
    · rename_i heq
      simpa [eq] using heq
    · rfl

lemma rollBack_eq {undone : List Bool} (hb : ∀ b ∈ undone, b = true) (k : Nat) :
    st.rollBack newOutput k undone = st.files := by
  have hall : ∀ i : Nat, undone[i]?.getD true = true := by
    intro i
    cases hi : undone[i]? with
    | none => rfl
    | some b => exact hb b (mem_of_getElem? hi)
  have hfst : (st.files.zip (st.plan newOutput)).map Prod.fst = st.files :=
    map_fst_zip (by simp [plan])
  refine ext_getElem? fun i => ?_
  rw [rollBack, getElem?_mapIdx, ← hfst, getElem?_map, hfst]
  simp [hall]

/-- Relocating keeps every file where the storage's directory puts it, if what fails half way is
rolled back; if it succeeds, the directory is the new one. -/
lemma relocate_placed (h : st.Placed) (hb : RollsBack io)
    (hr : st.relocate newOutput io = some (st', err)) :
    st'.Placed ∧ st'.torrent = st.torrent ∧
      (err = none → io = .moved ∧ components st'.outputDir = components newOutput) ∧
      (err ≠ none → st'.outputDir = st.outputDir ∧ st'.files = st.files) := by
  cases io with
  | syncError msg =>
    cases hr
    exact ⟨h, rfl, by simp, fun _ => ⟨rfl, rfl⟩⟩
  | destinationExists i msg =>
    simp only [relocate] at hr
    split at hr <;> cases hr
    exact ⟨h, rfl, by simp, fun _ => ⟨rfl, rfl⟩⟩
  | moved =>
    simp only [relocate] at hr
    split at hr <;> cases hr
    · rename_i heq
      exact ⟨h, rfl, fun _ => ⟨rfl, by simpa [eq] using heq⟩, by simp⟩
    · refine ⟨?_, rfl, fun _ => ⟨rfl, rfl⟩, by simp⟩
      rw [Placed, samePaths, ← plan_eq h]
      exact components_zip (by simp [plan])
  | failedAt k undone msg =>
    simp only [relocate] at hr
    split at hr <;> cases hr
    exact ⟨by rw [rollBack_eq hb]; exact h, rfl, by simp, fun _ => ⟨rfl, rollBack_eq hb k⟩⟩

end Storage

end BitRev
