import BitRev.Framework.Assoc
import BitRev.Framework.Prog
import BitRev.Framework.Segments
import BitRev.Pieces.Sizes

/-!
# Reading and writing blocks

The data path of `storage/mod.rs`. The blocking closures `write_mapped` and `read_mapped` are
programs (`Prog`) that make positional reads and writes on the open files; `Contents.perform` says what
the operating system does with one of those: it transfers some of the bytes, or fails.

`write_piece` and `read_block` have one await, for their blocking closure. `Store.start` is a call
up to that await and `Store.resume` is what follows it; `Store.call` is a whole call with nothing
else going on.
-/

namespace BitRev

/-! ## Files -/

/-- The contents of the files, by file number. -/
abbrev Contents := Nat → Bytes

inductive IoOp where
  | write (file : Nat) (buf : Bytes) (offset : Nat)
  | read (file : Nat) (len : Nat) (offset : Nat)

abbrev IoOp.Answer : IoOp → Type
  | .write _ _ _ => Except String Nat
  | .read _ _ _ => Except String Bytes

/-- How a positional read or write goes: at most `n` bytes are transferred, or it fails. -/
inductive Outcome where
  | transfer (n : Nat)
  | fail (msg : String)

def Contents.perform (d : Contents) : (e : IoOp) → Outcome → e.Answer × Contents
  | .write file buf offset, .transfer n =>
    (.ok (buf.take n).length, Function.update d file (overwrite 0 (d file) offset (buf.take n)))
  | .write _ _ _, .fail msg => (.error msg, d)
  -- nothing is read beyond the end of the file
  | .read file len offset, .transfer n => (.ok (window (d file) offset (min n len)), d)
  | .read _ _ _, .fail msg => (.error msg, d)

abbrev Blocking (α : Type) := Prog IoOp IoOp.Answer (Except String α)

namespace Storage

def writeAt (file : Nat) (buf : Bytes) (offset : Nat) : Blocking Unit :=
  if buf = [] then .ret (.ok ())
  else
    .call (.write file buf offset) fun
      | .error e => .ret (.error e)
      | .ok n =>
        if n = 0 then .ret (.error "write_at returned 0")
        else writeAt file (buf.drop n) (offset + n)
termination_by buf.length
decreasing_by
  have hpos : 0 < buf.length := List.length_pos_of_ne_nil ‹_›
  rw [List.length_drop]
  omega

/-- `len` bytes, after those `read` before. -/
def readAt (file : Nat) (read : Bytes) (len offset : Nat) : Blocking Bytes :=
  if len = 0 then .ret (.ok read)
  else
    .call (.read file len offset) fun
      | .error e => .ret (.error e)
      | .ok bs =>
        if bs.length = 0 then .ret (.error "read_at returned 0")
        else readAt file (read ++ bs) (len - bs.length) (offset + bs.length)
termination_by len

/-- What awaiting a closure that panics gives. -/
def joinError : String := "task panicked"

def writeMapped (files : List Nat) : List PieceFileMapping → Bytes → Blocking Unit
  | [], _ => .ret (.ok ())
  | m :: ms, buf =>
    if buf.length < m.length then .ret (.error joinError)
    else if m.length = 0 then writeMapped files ms buf
    else
      match files[m.fileIndex]? with
      | none => .ret (.error joinError)
      | some file =>
        (writeAt file (buf.take m.length) m.fileOffset).bind fun
          | .error e => .ret (.error e)
          | .ok () => writeMapped files ms (buf.drop m.length)

/-- The loop of `read_mapped`, with the bytes `out` from the mappings before. -/
def readMapped (files : List Nat) (windowStart windowStop : Nat) :
    List PieceFileMapping → Nat → Bytes → Blocking Bytes
  | [], _, out => .ret (.ok out)
  | m :: ms, pieceOffset, out =>
    let mapStop := pieceOffset + m.length
    let overlapStart := max pieceOffset windowStart
    let overlapStop := min mapStop windowStop
    if overlapStart < overlapStop then
      match files[m.fileIndex]? with
      | none => .ret (.error joinError)
      | some file =>
        (readAt file [] (overlapStop - overlapStart)
            (m.fileOffset + (overlapStart - pieceOffset))).bind fun
          | .error e => .ret (.error e)
          | .ok chunk => readMapped files windowStart windowStop ms mapStop (out ++ chunk)
    else readMapped files windowStart windowStop ms mapStop out

end Storage

/-! ## The piece cache -/

structure PieceCache where
  capacity : Nat
  map : AList fun _ : Nat => Bytes
  /-- The pieces in the cache, the least recently used first. -/
  order : List Nat

namespace PieceCache

def new (capacity : Nat) : PieceCache := ⟨capacity, ∅, []⟩

def get (c : PieceCache) (index : Nat) : Option Bytes × PieceCache :=
  match c.map.lookup index with
  | none => (none, c)
  | some piece => (some piece, { c with order := c.order.filter (· ≠ index) ++ [index] })

def put (c : PieceCache) (index : Nat) (data : Bytes) : PieceCache :=
  if c.capacity = 0 then c
  else
    let c :=
      if (c.map.lookup index).isSome then { c with order := c.order.filter (· ≠ index) }
      else if c.map.keys.length ≥ c.capacity then
        match c.order with
        | [] => c
        | old :: order => { c with order, map := c.map.erase old }
      else c
    { c with order := c.order ++ [index], map := c.map.insert index data }

def invalidate (c : PieceCache) (index : Nat) : PieceCache :=
  { c with map := c.map.erase index, order := c.order.filter (· ≠ index) }

variable {c : PieceCache} {i j : Nat} {d e : Bytes}

lemma get_eq (c : PieceCache) (i : Nat) :
    (c.get i).1 = c.map.lookup i ∧ (c.get i).2.map = c.map := by
  unfold get
  split <;> simp_all

lemma put_lookup (h : (c.put i d).map.lookup j = some e) :
    (j = i ∧ e = d) ∨ c.map.lookup j = some e := by
  unfold put at h
  split at h
  · exact .inr h
  rcases Assoc.lookup_insert_cases h with heq | ⟨-, h⟩
  · exact .inl heq
  refine .inr ?_
  split at h
  · exact h
  · split at h
    · split at h
      · exact h
      · exact (Assoc.lookup_erase_cases h).2
    · exact h

lemma invalidate_lookup (h : (c.invalidate i).map.lookup j = some e) :
    j ≠ i ∧ c.map.lookup j = some e := Assoc.lookup_erase_cases h

end PieceCache

/-! ## Calls -/

inductive StorageError where
  | io (msg : String)
  | pieceOutOfRange (index : Nat)
  | blockOutOfBounds (index start length : Nat)

/-- The part of `Storage` that calls use: the open files, by their number, and the cache. -/
structure Store where
  torrent : Torrent
  files : List Nat
  cache : PieceCache
  cacheCapacity : Nat

inductive BlockCall where
  | writePiece (index : Nat) (buf : Bytes)
  | readBlock (index start length : Nat)

/-- A call returns, or awaits its blocking closure. The result of a write is empty. -/
inductive Poll where
  | ready (r : Except StorageError Bytes)
  | pending (p : Blocking Bytes)

/-- The slice `&bs[start..start + len]`; `none` where that panics. -/
def sliceOf (bs : Bytes) (start len : Nat) : Option Bytes :=
  if start + len ≤ bs.length then some (window bs start len) else none

namespace Store

def openWith (t : Torrent) (files : List Nat) (capacity : Nat) : Store :=
  ⟨t, files, .new capacity, capacity⟩

variable (st : Store)

/-- The closure `write_piece` spawns. -/
def writeClosure (index : Nat) (buf : Bytes) : Blocking Bytes :=
  (Storage.writeMapped st.files (st.torrent.mapPieceToFiles index) buf).bind
    fun r => .ret (r.map fun () => [])

/-- The closure `read_block` spawns. With a cache it reads the whole piece. -/
def readClosure (index start length : Nat) : Blocking Bytes :=
  let mappings := st.torrent.mapPieceToFiles index
  if st.cacheCapacity > 0 then
    Storage.readMapped st.files 0 (st.torrent.calculatePieceSize index) mappings 0 []
  else Storage.readMapped st.files start (start + length) mappings 0 []

def writePiece (index : Nat) (buf : Bytes) : Store × Poll :=
  if index ≥ st.torrent.pieceHashes.length then (st, .ready (.error (.pieceOutOfRange index)))
  else if buf.length ≠ st.torrent.calculatePieceSize index then
    (st, .ready (.error (.blockOutOfBounds index 0 (buf.length % 2 ^ 32))))
  else
    let cache := if st.cacheCapacity = 0 then st.cache else st.cache.invalidate index
    ({ st with cache }, .pending (st.writeClosure index buf))

/-- `none` if it panics. -/
def readBlock (index start length : Nat) : Option (Store × Poll) :=
  if index ≥ st.torrent.pieceHashes.length then
    some (st, .ready (.error (.pieceOutOfRange index)))
  else if length = 0 ∨ start + length > st.torrent.calculatePieceSize index then
    some (st, .ready (.error (.blockOutOfBounds index start length)))
  else
    let (hit, cache) := if st.cacheCapacity = 0 then (none, st.cache) else st.cache.get index
    match hit with
    | some piece => (sliceOf piece start length).map fun out => ({ st with cache }, .ready (.ok out))
    | none => some ({ st with cache }, .pending (st.readClosure index start length))

def start : BlockCall → Option (Store × Poll)
  | .writePiece index buf => some (st.writePiece index buf)
  | .readBlock index start length => st.readBlock index start length

/-- A call after its closure has returned. -/
def resume (c : BlockCall) (r : Except String Bytes) : Option (Store × Except StorageError Bytes) :=
  match r, c with
  | .error msg, _ => some (st, .error (.io msg))
  | .ok _, .writePiece _ _ => some (st, .ok [])
  | .ok piece, .readBlock index start length =>
    if st.cacheCapacity > 0 then
      (sliceOf piece start length).map fun out =>
        ({ st with cache := st.cache.put index piece }, .ok out)
    else some (st, .ok piece)

/-- A call with nothing else going on; `none` if it panics. -/
def call (d : Contents) (c : BlockCall) (os : Nat → Outcome) :
    Option (Except StorageError Bytes × Store × Contents) :=
  match st.start c with
  | none => none
  | some (st, .ready r) => some (r, st, d)
  | some (st, .pending p) =>
    let (r, d) := p.run Contents.perform os d
    (st.resume c r).map fun (st, r) => (r, st, d)

/-- Calls one after another, each with the outcomes of its reads and writes. -/
def calls (st : Store) (d : Contents) :
    List (BlockCall × (Nat → Outcome)) → Option (List (Except StorageError Bytes) × Store × Contents)
  | [] => some ([], st, d)
  | (c, os) :: cs =>
    match st.call d c os with
    | none => none
    | some (r, st, d) => (st.calls d cs).map fun (rs, st, d) => (r :: rs, st, d)

end Store

end BitRev
