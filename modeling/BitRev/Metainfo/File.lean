import BitRev.Metainfo.Bencode

/-!
# Metainfo files

`file.rs`: the decoded `info` dict, `validateTorrentFile`, and the two ways a metainfo enters the
session, `fromBytes` (a `.torrent` file) and `TorrentMeta.fromInfoBytes` (an `info` dict received
from peers). The bencode decoder and SHA-1 are parameters.

`fromBytes_valid` and `fromInfoBytes_valid`: what either accepts has passed `validateTorrentFile`,
and `validateTorrentFile_files` says what that gives for the files of a multi-file torrent.
-/

namespace BitRev

abbrev Digest := BitVec 160

def Digest.ofBytes (bs : Bytes) : Digest := BitVec.ofNat 160 (beToNat bs)

def Digest.toBytes (d : Digest) : Bytes := toBe 20 d.toNat

namespace Metainfo

structure File where
  path : List Bytes
  length : Int
  deriving DecidableEq

structure Info where
  name : Bytes
  pieces : Bytes
  pieceLength : Int
  length : Option Int
  files : Option (List File)
  privateFlag : Option UInt8
  deriving DecidableEq

/-- `private=1` is private; missing or `0` is public. -/
def Info.isPrivate (info : Info) : Bool :=
  match info.privateFlag with
  | some flag => flag ≠ 0
  | none => false

structure TorrentFile where
  info : Info
  deriving DecidableEq

structure TorrentMeta where
  torrentFile : TorrentFile
  infoHash : Digest
  pieceHashes : List Digest
  infoBytes : Bytes
  deriving DecidableEq

/-- The errors of reading a metainfo; the text of the first two is the scanner's and the
decoder's. -/
inductive FileError where
  | bencode (msg : String)
  | decode (msg : String)
  | pieceLengthNotPositive
  | piecesNotMultipleOf20
  | emptyFilePath
  | unsafeFilePathComponent (component : Bytes)
  | lengthOrFiles
  deriving DecidableEq

/-- Rust's debug form of an ASCII text. -/
def debugText (text : Bytes) : String :=
  let escape (b : UInt8) : List Char :=
    if b = chr '"' then ['\\', '"']
    else if b = chr '\\' then ['\\', '\\']
    else [Char.ofNat b.toNat]
  String.ofList (['"'] ++ text.flatMap escape ++ ['"'])

def FileError.message : FileError → String
  | .bencode msg => msg
  | .decode msg => msg
  | .pieceLengthNotPositive => "piece length must be positive"
  | .piecesNotMultipleOf20 => "pieces length must be a multiple of 20"
  | .emptyFilePath => "file path must not be empty"
  | .unsafeFilePathComponent component => "unsafe file path component: " ++ debugText component
  | .lengthOrFiles => "exactly one of length or files must be present"

def pathComponentIsSafe (component : Bytes) : Bool :=
  if component = [] ∨ component = ascii ".." then false
  else if chr '/' ∈ component ∨ chr '\\' ∈ component then false
  else if component.length ≥ 2 ∧ component[1]? = some (chr ':') then false
  else true

def validateFilePath (path : List Bytes) : Except FileError Unit :=
  if path = [] then .error .emptyFilePath
  else
    match path.find? (!pathComponentIsSafe ·) with
    | some component => .error (.unsafeFilePathComponent component)
    | none => .ok ()

/-- The loop of `validate_torrent_file` over the files. -/
def validateFiles : List File → Except FileError Unit
  | [] => .ok ()
  | file :: files =>
    match validateFilePath file.path with
    | .ok () => validateFiles files
    | .error e => .error e

def validateTorrentFile (t : TorrentFile) : Except FileError Unit :=
  if t.info.pieceLength ≤ 0 then .error .pieceLengthNotPositive
  else if t.info.pieces.length % 20 ≠ 0 then .error .piecesNotMultipleOf20
  else
    match t.info.length, t.info.files with
    | some _, none => .ok ()
    | none, some files => validateFiles files
    | _, _ => .error .lengthOrFiles

/-- The 20-byte chunks of `pieces`; a shorter rest is dropped. -/
def chunkHashes (pieces : Bytes) : List Digest :=
  (List.range (pieces.length / 20)).map fun k => Digest.ofBytes ((pieces.drop (20 * k)).take 20)

def TorrentMeta.fromValidated (t : TorrentFile) (infoHash : Digest) (infoBytes : Bytes) :
    TorrentMeta :=
  ⟨t, infoHash, chunkHashes t.info.pieces, infoBytes⟩

section Decoding

variable (decodeTorrentFile : Bytes → Except String TorrentFile)
  (decodeInfo : Bytes → Except String Info) (sha1 : Bytes → Digest)

def fromBytes (content : Bytes) : Except FileError TorrentMeta := do
  (Bencode.checkBencodeDepth content).mapError .bencode
  let torrent ← (decodeTorrentFile content).mapError .decode
  validateTorrentFile torrent
  let infoBytes ← (Bencode.rawInfoDict content).mapError .bencode
  return .fromValidated torrent (sha1 infoBytes) infoBytes

/-- Metainfo from a verified raw `info` dict. -/
def TorrentMeta.fromInfoBytes (infoBytes : Bytes) : Except FileError TorrentMeta := do
  (Bencode.checkBencodeDepth infoBytes).mapError .bencode
  let info ← (decodeInfo infoBytes).mapError .decode
  validateTorrentFile ⟨info⟩
  return .fromValidated ⟨info⟩ (sha1 infoBytes) infoBytes

variable {decodeTorrentFile decodeInfo sha1} {m : TorrentMeta}

lemma fromBytes_valid {content : Bytes} (h : fromBytes decodeTorrentFile sha1 content = .ok m) :
    validateTorrentFile m.torrentFile = .ok () := by
  simp only [fromBytes, bind, Except.bind, pure, Except.pure] at h
  split at h <;> [cases h; skip]
  split at h <;> [cases h; skip]
  split at h <;> [cases h; skip]
  rename_i hv
  split at h <;> [cases h; skip]
  cases h
  exact hv

lemma fromInfoBytes_valid {infoBytes : Bytes}
    (h : TorrentMeta.fromInfoBytes decodeInfo sha1 infoBytes = .ok m) :
    validateTorrentFile m.torrentFile = .ok () ∧ m.infoHash = sha1 infoBytes := by
  simp only [TorrentMeta.fromInfoBytes, bind, Except.bind, pure, Except.pure] at h
  split at h <;> [cases h; skip]
  split at h <;> [cases h; skip]
  split at h <;> [cases h; skip]
  rename_i hv
  cases h
  exact ⟨hv, rfl⟩

/-- The metainfo made from an `info` dict is about what the decoder makes of it. -/
lemma fromInfoBytes_info {infoBytes : Bytes}
    (h : TorrentMeta.fromInfoBytes decodeInfo sha1 infoBytes = .ok m) :
    decodeInfo infoBytes = .ok m.torrentFile.info := by
  simp only [TorrentMeta.fromInfoBytes, bind, Except.bind, pure, Except.pure] at h
  split at h <;> [cases h; skip]
  split at h <;> [cases h; skip]
  rename_i info hi
  split at h <;> [cases h; skip]
  cases h
  cases hd : decodeInfo infoBytes with
  | error e => simp [hd, Except.mapError] at hi
  | ok info' =>
    simp only [hd, Except.mapError, Except.ok.injEq] at hi
    rw [hi]
    rfl

end Decoding

lemma pathComponentIsSafe_iff {c : Bytes} (h : pathComponentIsSafe c = true) :
    c ≠ [] ∧ c ≠ ascii ".." ∧ chr '/' ∉ c := by
  unfold pathComponentIsSafe at h
  grind

lemma validateFiles_ok : ∀ {files : List File}, validateFiles files = .ok () →
      ∀ f ∈ files, f.path ≠ [] ∧ ∀ c ∈ f.path, pathComponentIsSafe c = true
  | [], _ => by simp
  | file :: files, h => by
    unfold validateFiles at h
    split at h <;> [skip; cases h]
    rename_i hf
    have hfile : file.path ≠ [] ∧ ∀ c ∈ file.path, pathComponentIsSafe c = true := by
      unfold validateFilePath at hf
      split at hf <;> [cases hf; skip]
      rename_i hne
      split at hf <;> [cases hf; skip]
      rename_i hall
      exact ⟨hne, by simpa using hall⟩
    exact List.forall_mem_cons.2 ⟨hfile, validateFiles_ok h⟩

lemma validateTorrentFile_files {t : TorrentFile} (h : validateTorrentFile t = .ok ())
    {files : List File} (hf : t.info.files = some files) :
    ∀ f ∈ files, f.path ≠ [] ∧ ∀ c ∈ f.path, pathComponentIsSafe c = true := by
  unfold validateTorrentFile at h
  rw [hf] at h
  split at h <;> [cases h; skip]
  split at h <;> [cases h; skip]
  cases hl : t.info.length <;> rw [hl] at h
  · exact validateFiles_ok h
  · cases h

end Metainfo

end BitRev
