import BitRev.Metainfo.Magnet
import BitRev.Metainfo.Torrent

/-!
# Where a torrent's files are stored

`resolveOutputDir` (`session.rs`) joins the name of a new torrent to the download directory, or to
the save path of its category; `Torrent.filePath` joins the components of each file to that. What
the two give, for a metainfo that `validateTorrentFile` accepts:

* `filePath_normalise`, `filePath_resolve`: below the output directory stand exactly the listed
  components other than `.`.
* `confined_iff`: when every file is below the download directory.
* `filePath_incomparable_iff`: when two files do not get in each other's way.
-/

namespace BitRev

open BitRev.Torrent

open BitRev.Path (push slash dot dotdot Component normalise names resolve climb isAbsolute
  ProperPrefix)
open Metainfo List

structure Category where
  savePath : Option Bytes

/-- The categories of a session, by name. -/
abbrev Categories := AList fun _ : Bytes => Category

/-- Where a torrent called `name` goes that is added without an output directory. -/
def resolveOutputDir (downloadDir : Bytes) (cats : Categories) (name category : Bytes) : Bytes :=
  let fallback := if downloadDir = [] then name else push downloadDir name
  if category = [] then fallback
  else
    match (cats.lookup category).bind Category.savePath with
    | some path => if path = [] then fallback else push path name
    | none => fallback

def baseDir (downloadDir : Bytes) (cats : Categories) (category : Bytes) : Bytes :=
  if category = [] then downloadDir
  else
    match (cats.lookup category).bind Category.savePath with
    | some path => if path = [] then downloadDir else path
    | none => downloadDir

lemma resolveOutputDir_eq (downloadDir : Bytes) (cats : Categories) (name category : Bytes) :
    resolveOutputDir downloadDir cats name category =
      push (baseDir downloadDir cats category) name := by
  have hfall : (if downloadDir = [] then name else push downloadDir name) =
      push downloadDir name := by
    split_ifs with h
    · rw [h, Path.push_nil]
    · rfl
  unfold resolveOutputDir baseDir
  simp only [hfall]
  split
  · rfl
  · split
    · split <;> rfl
    · rfl

/-! ## The components below the output directory -/

/-- The components of a file's path that name something. -/
def entered (path : List Bytes) : List Bytes := path.filter (· ≠ dot)

lemma normalise_foldl_push :
    ∀ (path : List Bytes) (out : Bytes), (∀ c ∈ path, pathComponentIsSafe c = true) →
      normalise (path.foldl push out) = normalise out ++ (entered path).map Component.normal
  | [], out, _ => by simp [entered]
  | c :: path, out, h => by
    obtain ⟨he, hd, hs⟩ := pathComponentIsSafe_iff (h c mem_cons_self)
    rw [foldl_cons, normalise_foldl_push path _ fun c hc => h c (mem_cons_of_mem _ hc),
      Path.normalise_push out (Path.isAbsolute_name hs), Path.names_name hs he hd]
    by_cases hc : c = dot <;> simp [entered, hc]

lemma foldl_walk_normal :
    ∀ (l st : List Bytes), (l.map Component.normal).foldl Component.walk st = st ++ l
  | [], st => by simp
  | c :: l, st => by
    rw [List.map_cons, List.foldl_cons, foldl_walk_normal l]
    simp [Component.walk]

/-- The names that file `i` of a torrent adds to the output directory. -/
def Torrent.fileNames (t : Torrent) (i : Nat) : List Bytes :=
  if t.files.length = 1 then []
  else
    match t.files[i]? with
    | some file => entered file.path
    | none => []

section Accepted

variable {m : TorrentMeta} {t : Torrent} (hv : validateTorrentFile m.torrentFile = .ok ())
  (hn : new m = some t)

include hv hn in
lemma Torrent.files_safe (h1 : t.files.length ≠ 1) :
    ∀ f ∈ t.files, ∀ c ∈ f.path, pathComponentIsSafe c = true := by
  intro f hf
  have hp := new_files hn
  have hmem : f.path ∈ t.files.map TorrentFileInfo.path := mem_map_of_mem hf
  cases hfiles : m.torrentFile.info.files with
  | none =>
    rw [hfiles] at hp
    exact absurd (by simpa using congrArg List.length hp) h1
  | some files =>
    rw [hp, hfiles] at hmem
    obtain ⟨g, hg, hgf⟩ := List.mem_map.1 hmem
    exact hgf ▸ (validateTorrentFile_files hv hfiles g hg).2

include hv hn in
lemma filePath_normalise (out : Bytes) (i : Nat) :
    normalise (t.filePath out i) = normalise out ++ (t.fileNames i).map Component.normal := by
  unfold Torrent.filePath Torrent.fileNames
  split
  · simp
  rename_i h1
  cases hi : t.files[i]? with
  | none => simp
  | some f =>
    exact normalise_foldl_push _ _ (files_safe hv hn h1 f (mem_of_getElem? hi))

include hv hn in
lemma filePath_resolve (cwd : List Bytes) (out : Bytes) (i : Nat) :
    resolve cwd (t.filePath out i) = resolve cwd out ++ t.fileNames i := by
  rw [Path.resolve_eq, filePath_normalise hv hn, foldl_append, ← Path.resolve_eq,
    foldl_walk_normal]

end Accepted

/-! ## Confinement to the download directory -/

/-- How a torrent enters the session: from a `.torrent` file, or from a magnet link whose `info`
dict peers then deliver. -/
inductive Added where
  | torrentFile (content : Bytes)
  | magnet (uri infoBytes : Bytes)

section Accept

variable (decodeTorrentFile : Bytes → Except String TorrentFile)
  (decodeInfo : Bytes → Except String Info) (sha1 : Bytes → Digest)
  (parsePeer : Bytes → Option SocketAddr)

/-- The name the output directory is made from and the metainfo, if the session accepts both. -/
def Added.accept : Added → Option (Bytes × TorrentMeta)
  | .torrentFile content =>
    match fromBytes decodeTorrentFile sha1 content with
    | .ok m => some (m.torrentFile.info.name, m)
    | .error _ => none
  | .magnet uri infoBytes =>
    match Magnet.parse parsePeer uri, TorrentMeta.fromInfoBytes decodeInfo sha1 infoBytes with
    | .ok link, .ok m => if m.infoHash = link.infoHash then some (link.nameOrHash, m) else none
    | _, _ => none

variable {decodeTorrentFile decodeInfo sha1 parsePeer}

lemma Added.accept_valid {a : Added} {name : Bytes} {m : TorrentMeta}
    (h : a.accept decodeTorrentFile decodeInfo sha1 parsePeer = some (name, m)) :
    validateTorrentFile m.torrentFile = .ok () := by
  cases a with
  | torrentFile content =>
    simp only [Added.accept] at h
    split at h <;> cases h
    exact fromBytes_valid ‹_›
  | magnet uri infoBytes =>
    simp only [Added.accept] at h
    split at h
    · rename_i hm
      split at h <;> cases h
      exact (fromInfoBytes_valid hm).1
    · cases h

/-- `name`, followed by `fileNames`, leads from the directory `d` to a place below `d`: an
absolute name must name such a place itself, and a relative one that leaves directories must
enter the same ones again, and one more. -/
def StaysBelow (d : List Bytes) (name : Bytes) (fileNames : List Bytes) : Prop :=
  if isAbsolute name then ProperPrefix d (resolve [] name ++ fileNames)
  else ProperPrefix (d.drop (d.length - (climb name).1)) ((climb name).2 ++ fileNames)

instance (d : List Bytes) (name : Bytes) (fileNames : List Bytes) :
    Decidable (StaysBelow d name fileNames) :=
  inferInstanceAs (Decidable (if isAbsolute name = true then
    ProperPrefix d (resolve [] name ++ fileNames)
    else ProperPrefix (d.drop (d.length - (climb name).1)) ((climb name).2 ++ fileNames)))

lemma staysBelow_iff (d : List Bytes) (name : Bytes) (fileNames : List Bytes) :
    ProperPrefix d (resolve d name ++ fileNames) ↔ StaysBelow d name fileNames := by
  unfold StaysBelow
  cases h : isAbsolute name with
  | true => rw [if_pos rfl, Path.resolve_absolute h d []]
  | false => rw [if_neg (by simp), Path.resolve_eq_climb d h, append_assoc,
      Path.properPrefix_climb]

/-- Every file of an accepted torrent is stored below the directory it is added to exactly when
the name the output directory is made from, followed by the file's own names, stays below it. -/
theorem confined_iff {a : Added} {name : Bytes} {m : TorrentMeta} {t : Torrent}
    (ha : a.accept decodeTorrentFile decodeInfo sha1 parsePeer = some (name, m))
    (hn : new m = some t) (cwd : List Bytes) (downloadDir : Bytes) (cats : Categories)
    (category : Bytes) :
    (∀ p ∈ t.filePaths (resolveOutputDir downloadDir cats name category),
      ProperPrefix (resolve cwd (baseDir downloadDir cats category)) (resolve cwd p)) ↔
    ∀ i < t.files.length,
      StaysBelow (resolve cwd (baseDir downloadDir cats category)) name (t.fileNames i) := by
  have hpath : ∀ i, resolve cwd (t.filePath (resolveOutputDir downloadDir cats name category) i) =
      resolve (resolve cwd (baseDir downloadDir cats category)) name ++ t.fileNames i := by
    intro i
    rw [filePath_resolve (Added.accept_valid ha) hn, resolveOutputDir_eq, Path.resolve_push]
  simp only [Torrent.filePaths, List.mem_map, mem_range, forall_exists_index, and_imp,
    forall_apply_eq_imp_iff₂, hpath, staysBelow_iff]

end Accept

/-- The `info` dict of a one-byte file called `name`. -/
def oneByteInfo (name : String) : Info :=
  { name := ascii name, pieces := List.replicate 20 (chr 'a'), pieceLength := 1,
    length := some 1, files := none, privateFlag := none }

def insideFile : Bytes :=
  ascii "d4:infod6:lengthi1e4:name1:x12:piece lengthi1e6:pieces20:aaaaaaaaaaaaaaaaaaaaee"

def outsideFile : Bytes :=
  ascii "d4:infod6:lengthi1e4:name4:../x12:piece lengthi1e6:pieces20:aaaaaaaaaaaaaaaaaaaaee"

/-- What the decoder makes of the two files. -/
def decodeOneByte (content : Bytes) : Except String TorrentFile :=
  if content = insideFile then .ok ⟨oneByteInfo "x"⟩
  else if content = outsideFile then .ok ⟨oneByteInfo "../x"⟩
  else .error "invalid torrent"

/-- The digests of the two `info` dicts. -/
def sha1OneByte (infoBytes : Bytes) : Digest :=
  if infoBytes = (insideFile.drop 7).dropLast then 0x44dde52bbd80be7e2bfd9d683135816d22c3f757
  else if infoBytes = (outsideFile.drop 7).dropLast then
    0xef276dd2230faca2588720ded34fc2aaa058d5cf
  else 0

def oneByteMeta (content : Bytes) (name : String) : TorrentMeta :=
  .fromValidated ⟨oneByteInfo name⟩ (sha1OneByte (content.drop 7).dropLast)
    (content.drop 7).dropLast

def oneByteTorrent (content : Bytes) (name : String) : Torrent :=
  let m := oneByteMeta content name
  { infoHash := m.infoHash, pieceHashes := m.pieceHashes, pieceLength := 1, length := 1,
    files := [⟨[ascii name], 1, 0⟩], name := ascii name, isPrivate := false }

/-- A file called `x` stays in the download directory. -/
theorem confined_iff_inside :
    new (oneByteMeta insideFile "x") = some (oneByteTorrent insideFile "x") ∧
      ∀ p ∈ (oneByteTorrent insideFile "x").filePaths
          (resolveOutputDir (ascii "/dl") ∅ (ascii "x") []),
        ProperPrefix (resolve [] (baseDir (ascii "/dl") ∅ [])) (resolve [] p) :=
  ⟨by decide, (@confined_iff decodeOneByte (fun _ => .error "") sha1OneByte (fun _ => none)
    (.torrentFile insideFile) (ascii "x") (oneByteMeta insideFile "x") _ (by decide) (by decide)
    [] _ _ _).2 (by decide)⟩

/-- A file called `../x` is accepted and does not. -/
theorem outside_accepted_and_not_confined :
    Added.accept decodeOneByte (fun _ => .error "") sha1OneByte (fun _ => none)
        (.torrentFile outsideFile) = some (ascii "../x", oneByteMeta outsideFile "../x") ∧
      new (oneByteMeta outsideFile "../x") = some (oneByteTorrent outsideFile "../x") ∧
      ¬∀ p ∈ (oneByteTorrent outsideFile "../x").filePaths
          (resolveOutputDir (ascii "/dl") ∅ (ascii "../x") []),
        ProperPrefix (resolve [] (baseDir (ascii "/dl") ∅ [])) (resolve [] p) := by
  refine ⟨by decide, by decide, by decide⟩

/-! ## Files that do not get in each other's way -/

/-- Neither path is the other or an ancestor of it. -/
def Incomparable {α : Type} (a b : List α) : Prop := ¬a <+: b ∧ ¬b <+: a

instance {α : Type} [DecidableEq α] (a b : List α) : Decidable (Incomparable a b) :=
  inferInstanceAs (Decidable (¬a <+: b ∧ ¬b <+: a))

/-- What the files hold, by their normalised paths. -/
abbrev Disk := List Component → Bytes

/-- A positional write: `data` at `offset` of the file at `path`, with zeros up to there. -/
def Disk.writeAt (d : Disk) (path : Bytes) (offset : Nat) (data : Bytes) : Disk :=
  fun q =>
    if q = normalise path then
      (d q).take offset ++ List.replicate (offset - (d q).length) 0 ++ data ++
        (d q).drop (offset + data.length)
    else d q

lemma incomparable_append_map (a : List Component) (b c : List Bytes) :
    Incomparable (a ++ b.map Component.normal) (a ++ c.map Component.normal) ↔
      Incomparable b c := by
  have hinj : Function.Injective Component.normal := fun _ _ h => Component.normal.inj h
  simp only [Incomparable, prefix_append_right_inj, prefix_map_iff_of_injective hinj]

lemma Incomparable.ne {α : Type} {a b : List α} (h : Incomparable a b) : a ≠ b :=
  fun heq => h.1 (heq ▸ prefix_refl a)

lemma Torrent.fileNames_listed {m : TorrentMeta} {t : Torrent} (hn : new m = some t)
    {files : List File} (hf : m.torrentFile.info.files = some files) (h1 : files.length ≠ 1)
    {i : Nat} {f : File} (hi : files[i]? = some f) : t.fileNames i = entered f.path := by
  have hp := new_files hn
  rw [hf] at hp
  have hlen : t.files.length = files.length := by simpa using congrArg List.length hp
  have hpi : (t.files.map TorrentFileInfo.path)[i]? = some f.path := by
    rw [hp, getElem?_map, hi]
    rfl
  rw [getElem?_map, Option.map_eq_some_iff] at hpi
  obtain ⟨g, hg, hgf⟩ := hpi
  rw [fileNames, if_neg (hlen ▸ h1), hg]
  exact congrArg entered hgf

/-- Two files of an accepted multi-file torrent have paths of which neither is the other or an
ancestor of it exactly when the same holds of their listed paths without `.`; a write to one
then leaves the other as it is. -/
theorem filePath_incomparable_iff {m : TorrentMeta} {t : Torrent}
    (hv : validateTorrentFile m.torrentFile = .ok ()) (hn : new m = some t)
    {files : List File} (hf : m.torrentFile.info.files = some files) {i j : Nat} (hij : i ≠ j)
    {f g : File} (hi : files[i]? = some f) (hj : files[j]? = some g) (out : Bytes) :
    (Incomparable (normalise (t.filePath out i)) (normalise (t.filePath out j)) ↔
      Incomparable (entered f.path) (entered g.path)) ∧
    (Incomparable (entered f.path) (entered g.path) →
      ∀ (d : Disk) (offset : Nat) (data : Bytes),
        d.writeAt (t.filePath out i) offset data (normalise (t.filePath out j)) =
          d (normalise (t.filePath out j))) := by
  have h1 : files.length ≠ 1 := by
    have hi' := (List.getElem?_eq_some_iff.1 hi).1
    have hj' := (List.getElem?_eq_some_iff.1 hj).1
    omega
  have hiff : Incomparable (normalise (t.filePath out i)) (normalise (t.filePath out j)) ↔
      Incomparable (entered f.path) (entered g.path) := by
    rw [filePath_normalise hv hn, filePath_normalise hv hn,
      fileNames_listed hn hf h1 hi, fileNames_listed hn hf h1 hj]
    exact incomparable_append_map _ _ _
  refine ⟨hiff, fun h d offset data => ?_⟩
  exact if_neg (hiff.2 h).ne.symm

def twoFileMeta (p q : List Bytes) : TorrentMeta :=
  .fromValidated
    ⟨{ name := ascii "x", pieces := [], pieceLength := 1, length := none,
       files := some [⟨p, 1⟩, ⟨q, 1⟩], privateFlag := none }⟩ 0 []

def twoFileTorrent (p q : List Bytes) : Torrent :=
  { infoHash := 0, pieceHashes := [], pieceLength := 1, length := 2,
    files := [⟨p, 1, 0⟩, ⟨q, 1, 1⟩], name := ascii "x", isPrivate := false }

theorem filePath_incomparable_a_b :
    Incomparable
      (normalise ((twoFileTorrent [ascii "a"] [ascii "b"]).filePath (ascii "/dl/x") 0))
      (normalise ((twoFileTorrent [ascii "a"] [ascii "b"]).filePath (ascii "/dl/x") 1)) :=
  (@filePath_incomparable_iff (twoFileMeta [ascii "a"] [ascii "b"])
    (twoFileTorrent [ascii "a"] [ascii "b"]) (by decide) (by decide) _ rfl 0 1 (by decide) _ _
    rfl rfl (ascii "/dl/x")).1.2 (by decide)

/-- A file listed twice is accepted, and stored in one place. -/
theorem same_path_twice_accepted :
    validateTorrentFile (twoFileMeta [ascii "a"] [ascii "a"]).torrentFile = .ok () ∧
      new (twoFileMeta [ascii "a"] [ascii "a"]) =
        some (twoFileTorrent [ascii "a"] [ascii "a"]) ∧
      ¬Incomparable
        (normalise ((twoFileTorrent [ascii "a"] [ascii "a"]).filePath (ascii "/dl/x") 0))
        (normalise ((twoFileTorrent [ascii "a"] [ascii "a"]).filePath (ascii "/dl/x") 1)) := by
  decide

end BitRev
