import BitRev.Framework.Inodes
import BitRev.Framework.Run

/-!
# Writing a resume file

`persist_torrent` (`session.rs`), with `persist`, `save` and `write_atomic` (`resume.rs`): a call
takes a snapshot of the torrent, writes it to `<name>.resume.tmp` and renames that to
`<name>.resume`. The tasks that persist a torrent run at the same time and take no lock; a step is
one file operation of one call, or the end of the process (`crash`), after which the files stay and
later calls find them.

The calls stand in the order in which they took their snapshots. A `ResumeData` is any `D`, and
`encode` its encoding, which may fail.
-/

namespace BitRev.Resume

open List Option

/-- The two names: `resume_path` and its `tmp_path`. -/
inductive FileName where
  | path
  | tmp
  deriving DecidableEq

inductive CallState where
  /-- It has its snapshot. -/
  | snapped
  /-- The directory exists. -/
  | ready
  /-- `fs::write`: the file is open, and `rest` is still to be written at `offset`. -/
  | opened (inode offset : Nat) (rest : Bytes)
  /-- An operation failed: the temporary file is to be removed. -/
  | failed
  | returned (ok : Bool)
  /-- The process ended before the call did. -/
  | lost
  deriving DecidableEq

def CallState.over : CallState → Bool
  | .returned _ | .lost => true
  | _ => false

structure PersistCall (D : Type) where
  data : D
  state : CallState
  deriving DecidableEq

structure Persisting (D : Type) where
  fs : Inodes FileName
  calls : List (PersistCall D)
  /-- How many operations failed, and how often the process ended. -/
  faults : Nat

/-- The file operations of call `k`; `ok` says whether the system lets it succeed. -/
inductive FileAct (D : Type) where
  | begin (data : D)
  | createDir (k : Nat) (ok : Bool)
  | create (k : Nat) (ok : Bool)
  /-- One `write` call, of `n` bytes. -/
  | write (k n : Nat) (ok : Bool)
  | rename (k : Nat) (ok : Bool)
  | remove (k : Nat) (ok : Bool)
  | crash

namespace Persisting

variable {D : Type}

/-- No resume file yet; a temporary file may be left from an earlier process. -/
def start (leftover : Option Bytes) : Persisting D :=
  let fs : Inodes FileName := .empty
  { fs :=
      match leftover with
      | none => fs
      | some bytes => (fs.create .tmp).2.write (fs.create .tmp).1 0 bytes
    calls := []
    faults := 0 }

section

variable (s : Persisting D)

def put (k : Nat) (c : PersistCall D) (state : CallState) : Persisting D :=
  { s with calls := s.calls.set k { c with state } }

/-- An operation of call `k` failed. -/
def fault (k : Nat) (c : PersistCall D) (state : CallState) : Persisting D :=
  { s.put k c state with faults := s.faults + 1 }

def operate (encode : D → Option Bytes) (s : Persisting D) (k : Nat) (c : PersistCall D) :
    FileAct D → Option (Persisting D)
  | .createDir _ ok =>
    match c.state with
    | .snapped => some (if ok then s.put k c .ready else s.fault k c (.returned false))
    | _ => none
  | .create _ ok =>
    match c.state with
    | .ready =>
      if ok then
        let r := s.fs.create .tmp
        some { s.put k c (.opened r.1 0 ((encode c.data).getD [])) with fs := r.2 }
      else some (s.fault k c .failed)
    | _ => none
  | .write _ n ok =>
    match c.state with
    | .opened inode offset rest =>
      if rest = [] then none
      else if ok then
        if 1 ≤ n ∧ n ≤ rest.length then
          some { s.put k c (.opened inode (offset + n) (rest.drop n)) with
            fs := s.fs.write inode offset (rest.take n) }
        else none
      else some (s.fault k c .failed)
    | _ => none
  | .rename _ ok =>
    match c.state with
    | .opened _ _ [] =>
      if ok then
        match s.fs.rename .tmp .path with
        | some fs => some { s.put k c (.returned true) with fs }
        | none => some (s.put k c .failed)
      else some (s.fault k c .failed)
    | _ => none
  | .remove _ ok =>
    match c.state with
    | .failed =>
      some { s.put k c (.returned false) with fs := if ok then s.fs.remove .tmp else s.fs }
    | _ => none
  | .begin _ | .crash => none

def step (encode : D → Option Bytes) (s : Persisting D) (a : FileAct D) : Option (Persisting D) :=
  match a with
  | .begin data =>
    match encode data with
    | some _ => some { s with calls := s.calls ++ [{ data, state := .snapped }] }
    | none =>
      some { s with
        calls := s.calls ++ [{ data, state := .returned false }], faults := s.faults + 1 }
  | .crash =>
    some { s with
      calls := s.calls.map fun c => if c.state.over then c else { c with state := .lost }
      faults := s.faults + 1 }
  | .createDir k _ | .create k _ | .write k _ _ | .rename k _ | .remove k _ =>
    (s.calls[k]?).bind fun c => s.operate encode k c a

def file : Option Bytes := s.fs.contents .path

/-- A call takes its snapshot only when no other is under way; a rename that succeeds ends one. -/
def Serial : FileAct D → Prop
  | .begin _ => ∀ c ∈ s.calls, c.state.over
  | _ => True

end

instance (s : Persisting D) (a : FileAct D) : Decidable (s.Serial a) := by
  unfold Serial
  split <;> infer_instance

/-- The last call, by how far it is: what it has written is a prefix of its snapshot, under the
temporary name; when it has returned without an error its snapshot is the resume file. -/
def Current (encode : D → Option Bytes) (s : Persisting D) (c : PersistCall D) : Prop :=
  match c.state with
  | .snapped | .ready => (encode c.data).isSome
  | .opened inode offset rest =>
    s.fs.names .tmp = some inode ∧ offset = (s.fs.data inode).length ∧
      encode c.data = some (s.fs.data inode ++ rest)
  | .failed | .lost | .returned false => 0 < s.faults
  | .returned true => s.file = encode c.data

structure Orderly (encode : D → Option Bytes) (s : Persisting D) : Prop where
  complete : ∀ bytes, s.file = some bytes → ∃ c ∈ s.calls, encode c.data = some bytes
  earlier : ∀ c ∈ s.calls.dropLast, c.state.over
  faultless : s.faults = 0 → ∀ c ∈ s.calls, c.state.over → c.state = .returned true
  current : ∀ c, s.calls.getLast? = some c → s.Current encode c

variable {encode : D → Option Bytes} {s s' : Persisting D} {c : PersistCall D}

lemma Orderly.last (h : s.Orderly encode) {k : Nat} (hk : s.calls[k]? = some c)
    (hc : c.state.over = false) : ∃ older, s.calls = older ++ [c] ∧ k = older.length := by
  obtain ⟨hlt, hget⟩ := List.getElem?_eq_some_iff.1 hk
  have hne : s.calls ≠ [] := ne_nil_of_length_pos (by omega)
  have hsplit := dropLast_append_getLast hne
  have hlen : s.calls.dropLast.length = s.calls.length - 1 := length_dropLast
  rcases Nat.lt_or_ge k (s.calls.length - 1) with hlt' | hge
  · have hmem : c ∈ s.calls.dropLast := by
      refine mem_iff_getElem?.2 ⟨k, ?_⟩
      rw [getElem?_dropLast, if_pos hlt', hk]
    rw [h.earlier c hmem] at hc
    cases hc
  · have hk' : k = s.calls.length - 1 := by omega
    refine ⟨s.calls.dropLast, ?_, by omega⟩
    have hlast : s.calls.getLast hne = c := by
      rw [getLast_eq_getElem, ← hget]
      simp only [hk']
    rw [← hlast]
    exact hsplit.symm

variable {older : List (PersistCall D)}

section

variable (h : s.Orderly encode)
include h

section

variable (hcalls : s.calls = older ++ [c])
include hcalls

lemma Orderly.advance {state : CallState} (fs : Inodes FileName) {faults : Nat}
    (hle : s.faults ≤ faults)
    (hfile : ∀ bytes, fs.contents .path = some bytes →
      s.file = some bytes ∨ encode c.data = some bytes)
    (hover : faults = 0 → state.over → state = .returned true)
    (hcur : Current encode { s with fs, faults } { c with state }) :
    Orderly encode { s.put older.length c state with fs, faults } := by
  have hput : s.calls.set older.length { c with state } = older ++ [{ c with state }] := by
    rw [hcalls, set_append_right _ _ le_rfl]
    simp
  have hearlier := h.earlier
  rw [hcalls, dropLast_concat] at hearlier
  refine ⟨fun bytes hb => ?_, fun d hd => ?_, fun h0 d hd hdo => ?_, fun d hd => ?_⟩
  · simp only [put, hput]
    rcases hfile bytes hb with hb | hb
    · obtain ⟨d, hd, hde⟩ := h.complete bytes hb
      rw [hcalls] at hd
      rcases mem_append.1 hd with hd | hd
      · exact ⟨d, mem_append_left _ hd, hde⟩
      · rw [mem_singleton.1 hd] at hde
        exact ⟨{ c with state }, by simp, hde⟩
    · exact ⟨{ c with state }, by simp, hb⟩
  · simp only [put, hput, dropLast_concat] at hd
    exact hearlier d hd
  · have h0 : faults = 0 := h0
    simp only [put, hput] at hd
    rcases mem_append.1 hd with hd | hd
    · exact h.faultless (by omega) d (by rw [hcalls]; exact mem_append_left _ hd) hdo
    · rw [mem_singleton.1 hd] at hdo ⊢
      exact hover h0 hdo
  · simp only [put, hput, getLast?_concat, some.injEq] at hd
    subst hd
    exact hcur

/-- A fault: the resume file stays as it is. -/
lemma Orderly.fault {state : CallState} (hstate : state = .failed ∨ state = .returned false) :
    Orderly encode (s.fault older.length c state) := by
  refine h.advance hcalls s.fs (Nat.le_succ _) (fun bytes hb => .inl hb)
    (fun h0 => absurd h0 (Nat.succ_ne_zero _)) ?_
  rcases hstate with rfl | rfl <;> exact Nat.succ_pos _

lemma Orderly.last_current : s.Current encode c :=
  h.current c (by rw [hcalls, getLast?_concat])

lemma Orderly.created (hstate : c.state = .ready) :
    Orderly encode { s.put older.length c (.opened (s.fs.create .tmp).1 0
      ((encode c.data).getD [])) with fs := (s.fs.create .tmp).2 } := by
  have hc := h.last_current hcalls
  simp only [Current, hstate] at hc
  obtain ⟨bytes, hbytes⟩ := isSome_iff_exists.1 hc
  refine h.advance hcalls _ le_rfl (fun bytes hb => .inl ?_) (fun _ ho => by cases ho)
    ⟨Inodes.create_names_self, ?_, ?_⟩
  · rwa [Inodes.contents_create_ne (by decide)] at hb
  · rw [Inodes.create_data_self]
    rfl
  · rw [Inodes.create_data_self, nil_append, hbytes, getD_some]

lemma Orderly.written {inode offset n : Nat} {rest : Bytes}
    (hstate : c.state = .opened inode offset rest) (hn : n ≤ rest.length) :
    Orderly encode { s.put older.length c (.opened inode (offset + n) (rest.drop n)) with
      fs := s.fs.write inode offset (rest.take n) } := by
  have hc := h.last_current hcalls
  simp only [Current, hstate] at hc
  obtain ⟨htmp, hoff, henc⟩ := hc
  -- the resume file is another inode
  have hpath : s.fs.names .path ≠ some inode := fun hp => by
    cases s.fs.named.apart hp htmp
  have hdata : (s.fs.write inode offset (rest.take n)).data inode =
      s.fs.data inode ++ rest.take n := by
    rw [Inodes.write_data_self, hoff, overwrite_at_end]
  refine h.advance hcalls _ le_rfl (fun bytes hb => .inl ?_) (fun _ ho => by cases ho)
    ⟨htmp, ?_, ?_⟩
  · rwa [Inodes.contents_write_ne hpath] at hb
  · rw [hdata, length_append, length_take, hoff]
    omega
  · rw [hdata, append_assoc, take_append_drop]
    exact henc

lemma Orderly.renamed {inode offset : Nat} (hstate : c.state = .opened inode offset []) :
    ∃ fs, s.fs.rename .tmp .path = some fs ∧
      Orderly encode { s.put older.length c (.returned true) with fs } := by
  have hc := h.last_current hcalls
  simp only [Current, hstate] at hc
  obtain ⟨htmp, -, henc⟩ := hc
  rw [append_nil] at henc
  obtain ⟨fs, hren, hcont⟩ := Inodes.rename_contents htmp (by decide : FileName.tmp ≠ .path)
  refine ⟨fs, hren, h.advance hcalls fs le_rfl (fun bytes hb => .inr ?_) (fun _ _ => rfl) ?_⟩
  · rw [henc, ← hcont]
    exact hb
  · change fs.contents .path = encode c.data
    rw [hcont, henc]

end

lemma Orderly.removed {c : PersistCall D} (hcalls : s.calls = older ++ [c])
    (hstate : c.state = .failed) (ok : Bool) :
    Orderly encode { s.put older.length c (.returned false) with
      fs := if ok then s.fs.remove .tmp else s.fs } := by
  have hc := h.last_current hcalls
  simp only [Current, hstate] at hc
  refine h.advance hcalls _ le_rfl (fun bytes hb => .inl ?_)
    (fun h0 => absurd h0 (Nat.ne_of_gt hc)) hc
  split at hb
  · rwa [Inodes.contents_remove_ne (by decide)] at hb
  · exact hb

lemma Orderly.operate {k : Nat} {a : FileAct D} (hk : s.calls[k]? = some c)
    (hs : s.operate encode k c a = some s') : s'.Orderly encode := by
  -- only the last call has something left to do
  have hlast : c.state.over = false → ∃ older, s.calls = older ++ [c] ∧ k = older.length :=
    h.last hk
  unfold Persisting.operate at hs
  split at hs
  · split at hs
    · rename_i hstate
      obtain ⟨older, hcalls, rfl⟩ := hlast (by rw [hstate]; rfl)
      cases hs
      split
      · refine h.advance hcalls s.fs le_rfl (fun bytes hb => .inl hb)
          (fun _ ho => by cases ho) ?_
        simpa only [Current, hstate] using h.last_current hcalls
      · exact h.fault hcalls (.inr rfl)
    · cases hs
  · split at hs
    · rename_i hstate
      obtain ⟨older, hcalls, rfl⟩ := hlast (by rw [hstate]; rfl)
      split at hs <;> cases hs
      · exact h.created hcalls hstate
      · exact h.fault hcalls (.inl rfl)
    · cases hs
  · split at hs
    · rename_i inode offset rest hstate
      obtain ⟨older, hcalls, rfl⟩ := hlast (by rw [hstate]; rfl)
      split at hs
      · cases hs
      split at hs
      · split_ifs at hs with hn
        cases hs
        exact h.written hcalls hstate hn.2
      · cases hs
        exact h.fault hcalls (.inl rfl)
    · cases hs
  · split at hs
    · rename_i inode offset hstate
      obtain ⟨older, hcalls, rfl⟩ := hlast (by rw [hstate]; rfl)
      split at hs
      · obtain ⟨fs, hren, hfs⟩ := h.renamed hcalls hstate
        rw [hren] at hs
        cases hs
        exact hfs
      · cases hs
        exact h.fault hcalls (.inl rfl)
    · cases hs
  · split at hs
    · rename_i ok _ hstate
      obtain ⟨older, hcalls, rfl⟩ := hlast (by rw [hstate]; rfl)
      cases hs
      exact h.removed hcalls hstate ok
    · cases hs
  · cases hs
  · cases hs

lemma Orderly.begin (hover : ∀ c ∈ s.calls, c.state.over) {faults : Nat}
    (hle : s.faults ≤ faults) (hc : faults = 0 → c.state.over → c.state = .returned true)
    (hcur : Current encode { s with faults } c) :
    Orderly encode { s with calls := s.calls ++ [c], faults } := by
  refine ⟨fun bytes hb => ?_, fun d hd => ?_, fun h0 d hd hdo => ?_, fun d hd => ?_⟩
  · obtain ⟨d, hd, hde⟩ := h.complete bytes hb
    exact ⟨d, mem_append_left _ hd, hde⟩
  · simp only [dropLast_concat] at hd
    exact hover d hd
  · have h0 : faults = 0 := h0
    exact forall_mem_append.2 ⟨h.faultless (by omega), forall_mem_singleton.2 (hc h0)⟩ d hd hdo
  · simp only [getLast?_concat, some.injEq] at hd
    subst hd
    exact hcur

/-- The process ends: the files stay, and nothing is under way. -/
lemma Orderly.crash :
    Orderly encode { s with
      calls := s.calls.map fun c => if c.state.over then c else { c with state := .lost }
      faults := s.faults + 1 } := by
  have hdata : ∀ c : PersistCall D,
      (if c.state.over then c else { c with state := .lost }).data = c.data := fun c => by
    split <;> rfl
  have hall : ∀ c : PersistCall D,
      (if c.state.over then c else { c with state := .lost }).state.over := fun c => by
    split
    · assumption
    · rfl
  refine ⟨fun bytes hb => ?_, fun d hd => ?_, fun h0 => absurd h0 (Nat.succ_ne_zero _),
    fun d hd => ?_⟩
  · obtain ⟨c, hc, hce⟩ := h.complete bytes hb
    exact ⟨_, mem_map_of_mem hc, by rw [hdata, hce]⟩
  · obtain ⟨c, -, rfl⟩ := mem_map.1 (dropLast_subset _ hd)
    exact hall c
  · rw [getLast?_map] at hd
    obtain ⟨c, hc, rfl⟩ := map_eq_some_iff.1 hd
    have hcur := h.current c hc
    split_ifs with hover
    · unfold Current at hcur ⊢
      split <;> simp_all [CallState.over]
      exact hcur
    · exact Nat.succ_pos _

lemma Orderly.step {a : FileAct D} (hok : s.Serial a) (hs : s.step encode a = some s') :
    s'.Orderly encode := by
  cases a with
  | begin data =>
    simp only [Persisting.step] at hs
    split at hs
    · rename_i bytes henc
      cases hs
      refine h.begin hok le_rfl (fun _ ho => by cases ho) ?_
      simp [Current, henc]
    · cases hs
      exact h.begin hok (Nat.le_succ _) (fun h0 => absurd h0 (Nat.succ_ne_zero _)) (Nat.succ_pos _)
  | crash =>
    cases hs
    exact h.crash
  | createDir k ok | create k ok | write k n ok | rename k ok | remove k ok =>
    obtain ⟨c, hk, hs⟩ := bind_eq_some_iff.1 hs
    exact h.operate hk hs

end

lemma Orderly.start (encode : D → Option Bytes) (leftover : Option Bytes) :
    (Persisting.start leftover).Orderly encode := by
  have hfile : (Persisting.start leftover : Persisting D).file = none := by
    cases leftover <;> rfl
  refine ⟨fun bytes hb => ?_, ?_, ?_, ?_⟩
  · rw [hfile] at hb
    cases hb
  · simp [Persisting.start]
  · simp [Persisting.start]
  · simp [Persisting.start]

/-- While calls do not overlap: the resume file is at every moment absent or the whole snapshot of
some call, it is that of the last call once that has returned without an error, and without faults
every call does. -/
theorem persist_atomic {leftover : Option Bytes} {acts : List (FileAct D)}
    (hrun : Run (step encode) Serial (start leftover) acts s) :
    (∀ bytes, s.file = some bytes → ∃ c ∈ s.calls, encode c.data = some bytes) ∧
    (∀ c, s.calls.getLast? = some c → c.state = .returned true → s.file = encode c.data) ∧
    (s.faults = 0 → ∀ c ∈ s.calls, c.state.over → c.state = .returned true) := by
  have h : s.Orderly encode := hrun.inv (I := Orderly encode)
    (fun hI hok hs => hI.step hok hs) (.start encode leftover)
  refine ⟨h.complete, fun c hc hstate => ?_, h.faultless⟩
  simpa only [Current, hstate] using h.current c hc

/-- A snapshot that is encoded as two bytes. -/
def twice (data : UInt8) : Option Bytes := some [data, data]

/-- The file operations of one call that meets no fault. -/
def whole (k : Nat) : List (FileAct UInt8) :=
  [.createDir k true, .create k true, .write k 1 true, .write k 1 true, .rename k true]

/-- Three calls; the process ends in the second. -/
def oneByOne : List (FileAct UInt8) :=
  .begin 1 :: whole 0 ++ [.begin 2, .createDir 1 true, .create 1 true, .write 1 1 true, .crash] ++
    .begin 3 :: whole 2

theorem persist_atomic_oneByOne :
    ∃ s, Run (step twice) Serial (start (some [7])) oneByOne s ∧ s.file = twice 3 :=
  have hrun := Run.of_isSome
  ⟨_, hrun, (persist_atomic hrun).2.1 ⟨3, .returned true⟩ (by decide +kernel) rfl⟩

/-- The first call has written its snapshot; the second empties the file they share, and the first
renames that. -/
def torn : List (FileAct UInt8) :=
  [.begin 1, .createDir 0 true, .create 0 true, .write 0 2 true, .begin 2, .createDir 1 true,
    .create 1 true, .rename 0 true]

/-- The call with the older snapshot comes last. -/
def overtaken : List (FileAct UInt8) := .begin 1 :: .begin 2 :: whole 1 ++ whole 0

/-- Calls that overlap leave an empty resume file, or, when all have returned, the older
snapshot. -/
theorem persist_overlapping :
    (∃ s, Run (step twice) anyStep (start none) torn s ∧ s.file = some [] ∧
      ∀ c ∈ s.calls, twice c.data ≠ some []) ∧
    ∃ s, Run (step twice) anyStep (start none) overtaken s ∧
      (∀ c ∈ s.calls, c.state = .returned true) ∧
      ∃ c, s.calls.getLast? = some c ∧ s.file ≠ twice c.data :=
  ⟨⟨_, .of_isSome, by decide +kernel, fun c _ => by simp [twice]⟩,
    _, .of_isSome, by decide +kernel, ⟨2, .returned true⟩, by decide +kernel,
    by decide +kernel⟩

end Persisting

end BitRev.Resume
