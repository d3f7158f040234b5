import BitRev.Framework.Path
import BitRev.Metainfo.File

/-!
# Torrents and their discovery sources

`torrent.rs`: the `Torrent` a session works with, made from a metainfo; `discovery.rs`: which peer
sources a torrent may use; and `file_path` of `storage/mod.rs`, the on-disk path of each file.

`Torrent.new_files` says what the files of a new torrent are.
-/

namespace BitRev

/-- How a torrent learns about peers. -/
inductive DiscoverySource where
  | tracker
  | dht
  | pex
  | lsd
  deriving DecidableEq

namespace DiscoverySource

def isTracker (s : DiscoverySource) : Bool := s = .tracker

/-- Whether this source may be used for a torrent with the given privacy. -/
def allowedFor (s : DiscoverySource) (isPrivate : Bool) : Bool := !isPrivate || s.isTracker

end DiscoverySource

/-- `i64` addition in a release build wraps. -/
def addI64 (a b : Int) : Int := (a + b).bmod (2 ^ 64)

structure TorrentFileInfo where
  path : List Bytes
  length : Int
  offset : Int
  deriving DecidableEq

structure Torrent where
  infoHash : Digest
  pieceHashes : List Digest
  pieceLength : Int
  length : Int
  files : List TorrentFileInfo
  name : Bytes
  isPrivate : Bool
  deriving DecidableEq

namespace Torrent

open Metainfo (File TorrentMeta)

/-- The loop of `Torrent::new` over the files, from the offset `total` on. -/
def layFiles : Int → List File → List TorrentFileInfo × Int
  | total, [] => ([], total)
  | total, file :: files =>
    let (rest, length) := layFiles (addI64 total file.length) files
    (⟨file.path, file.length, total⟩ :: rest, length)

/-- A torrent from its metainfo; `none` when the length information is missing. -/
def new (m : TorrentMeta) : Option Torrent :=
  let info := m.torrentFile.info
  let layout :=
    match info.files, info.length with
    | some files, _ => some (layFiles 0 files)
    | none, some length => some ([⟨[info.name], length, 0⟩], length)
    | none, none => none
  layout.map fun (files, length) =>
    { infoHash := m.infoHash, pieceHashes := m.pieceHashes, pieceLength := info.pieceLength,
      length, files, name := info.name, isPrivate := info.isPrivate }

variable (t : Torrent)

def allowsSource (s : DiscoverySource) : Bool := s.allowedFor t.isPrivate

def allowsPex : Bool := t.allowsSource .pex

/-- The on-disk path of a file. In a single-file torrent `outputDir` is the file; otherwise it is
the directory the components of the file's path are joined to. -/
def filePath (outputDir : Bytes) (fileIndex : Nat) : Bytes :=
  if t.files.length = 1 then outputDir
  else
    match t.files[fileIndex]? with
    | some file => file.path.foldl Path.push outputDir
    | none => outputDir

/-- Every path `storage` opens for the torrent. -/
def filePaths (outputDir : Bytes) : List Bytes :=
  (List.range t.files.length).map (t.filePath outputDir)

lemma layFiles_path : ∀ (total : Int) (files : List File),
    (layFiles total files).1.map TorrentFileInfo.path = files.map File.path
  | _, [] => rfl
  | total, file :: files => by
    simpa [layFiles] using layFiles_path (addI64 total file.length) files

lemma new_meta {m : TorrentMeta} {t : Torrent} (h : new m = some t) :
    t.infoHash = m.infoHash ∧ t.isPrivate = m.torrentFile.info.isPrivate ∧
      t.name = m.torrentFile.info.name := by
  unfold new at h
  obtain ⟨layout, -, rfl⟩ := Option.map_eq_some_iff.1 h
  exact ⟨rfl, rfl, rfl⟩

lemma new_files {m : TorrentMeta} {t : Torrent} (h : new m = some t) :
    t.files.map TorrentFileInfo.path =
      match m.torrentFile.info.files with
      | some files => files.map File.path
      | none => [[t.name]] := by
  unfold new at h
  obtain ⟨layout, hl, rfl⟩ := Option.map_eq_some_iff.1 h
  cases hf : m.torrentFile.info.files with
  | some files =>
    simp only [hf, Option.some.injEq] at hl
    simp only [← hl, layFiles_path]
  | none =>
    cases hlen : m.torrentFile.info.length <;> simp only [hf, hlen] at hl
    · cases hl
    · simp only [Option.some.injEq] at hl
      simp [← hl]

end Torrent

end BitRev
