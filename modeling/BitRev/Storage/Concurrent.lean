import BitRev.Framework.Run
import BitRev.Storage.Flat

/-!
# Calls to a storage at the same time

Any number of `write_piece` and `read_block` calls share a storage. A call runs up to its await
when it is started, the reads and writes of its closure happen one by one, and once the closure
has returned the call goes on to its end; all of these interleave (`Shared.step`).

A read that misses the cache fills it after its await, and a write drops its piece from the cache
before its own. So a read that overlaps a write can leave the old piece in the cache, and of two
writes that overlap the earlier one may be the last to reach the files. In runs without such
overlaps (`Shared.Serial`) a read that is started after a write has returned gets what was written:
`write_then_read`.

The invariant is `Shared.Inv`. Every step changes the state of one call (`Shared.next`), and
`Shared.Change` collects what a step has to keep; `Inv.next` is the step lemma.
-/

namespace BitRev

open Option

def BlockCall.isWrite : BlockCall → Bool
  | .writePiece _ _ => true
  | .readBlock _ _ _ => false

def BlockCall.index : BlockCall → Nat
  | .writePiece index _ => index
  | .readBlock index _ _ => index

inductive CallState where
  | running (p : Blocking Bytes)
  | returned (time : Nat) (r : Except StorageError Bytes)

structure Shared where
  store : Store
  contents : Contents
  /-- The number of steps so far. -/
  now : Nat
  /-- The calls, each under the time it was started. -/
  calls : Nat → Option (BlockCall × CallState)

inductive SharedAct where
  | start (c : BlockCall)
  /-- The next read or write of the closure of a call. -/
  | io (call : Nat) (o : Outcome)
  | resume (call : Nat)

namespace Shared

def new (store : Store) (contents : Contents) : Shared := ⟨store, contents, 0, fun _ => none⟩

section

variable (s : Shared)

def next (cache : PieceCache) (contents : Contents) (n : Nat) (c : BlockCall)
    (st : CallState) : Shared :=
  { store := { s.store with cache }
    contents
    now := s.now + 1
    calls := Function.update s.calls n (some (c, st)) }

def step : SharedAct → Option Shared
  | .start c =>
    match s.store.start c with
    | none => none
    | some (store, .ready r) => some (s.next store.cache s.contents s.now c (.returned s.now r))
    | some (store, .pending p) => some (s.next store.cache s.contents s.now c (.running p))
  | .io n o =>
    match s.calls n with
    | some (c, .running (.call e k)) =>
      let (r, contents) := s.contents.perform e o
      some (s.next s.store.cache contents n c (.running (k r)))
    | _ => none
  | .resume n =>
    match s.calls n with
    | some (c, .running (.ret r)) =>
      (s.store.resume c r).map fun (store, r) =>
        s.next store.cache s.contents n c (.returned s.now r)
    | _ => none

/-- Call `n` is running, and is one of this kind on the piece. -/
def runs (write : Bool) (index n : Nat) : Bool :=
  match s.calls n with
  | some (c, .running _) => c.isWrite == write && c.index == index
  | _ => false

/-- A call of this kind on the piece is running. -/
def Busy (write : Bool) (index : Nat) : Prop := ∃ n < s.now, s.runs write index n

instance (s : Shared) (write : Bool) (index : Nat) : Decidable (s.Busy write index) :=
  inferInstanceAs (Decidable (∃ n < s.now, s.runs write index n))

def Serial : SharedAct → Prop
  | .start (.writePiece index _) =>
    ¬ s.Busy true index ∧ (s.store.cacheCapacity = 0 ∨ ¬ s.Busy false index)
  | .start (.readBlock index _ _) => s.store.cacheCapacity = 0 ∨ ¬ s.Busy true index
  | _ => True

instance (s : Shared) : DecidablePred s.Serial := by
  intro a
  rcases a with (⟨⟩ | ⟨⟩) | _ | _ <;> unfold Serial <;> infer_instance

def LastWrite (index n : Nat) : Prop :=
  ∀ m b st, s.calls m = some (.writePiece index b, st) → m ≤ n

def Quiet (index n : Nat) : Prop :=
  ∀ m b st, s.calls m = some (.writePiece index b, st) → ∃ t r, st = .returned t r ∧ t < n

def Fresh : Prop :=
  ∀ w index b t bs n start length t' r,
    s.calls w = some (.writePiece index b, .returned t (.ok bs)) → s.LastWrite index w →
    s.calls n = some (.readBlock index start length, .returned t' r) → t < n →
    Store.InRange s.store.torrent (.readBlock index start length) →
    r = .ok (window b start length) ∨ ∃ msg, r = .error (.io msg)

end

/-! ## The invariant -/

open Storage

abbrev piece (s : Shared) (index : Nat) : Bytes := s.store.piece s.contents index

/-- What the closure of a running write will do. -/
def Writer (s : Shared) (index : Nat) (b : Bytes) (p : Blocking Bytes) : Prop :=
  index < s.store.torrent.pieceHashes.length ∧
    p.wp (writing s.store.segments (s.store.torrent.pieceStart index)
      (s.store.torrent.pieceSize index) False)
      (fun r d => ∀ bs, r = .ok bs → s.store.piece d index = b) s.contents

/-- What the closure of a running read will do while nobody writes its piece. -/
def Reader (s : Shared) (index start length : Nat) (p : Blocking Bytes) : Prop :=
  p.wp (reading s.store.segments (s.store.torrent.pieceStart index)
    (s.store.torrent.pieceSize index) False)
    (fun r _ => ∀ bs, r = .ok bs →
      bs = if s.store.cacheCapacity > 0 then s.piece index else window (s.piece index) start length)
    s.contents

structure Inv (s : Shared) : Prop where
  laid : s.store.Laid
  past : ∀ n x, s.calls n = some x → n < s.now
  returned : ∀ n c t r, s.calls n = some (c, .returned t r) → n ≤ t ∧ t < s.now
  /-- A write is started when those before have returned. -/
  serial : ∀ n index b st, s.calls n = some (.writePiece index b, st) →
    ∀ m b' st', s.calls m = some (.writePiece index b', st') → m < n →
    ∃ t r, st' = .returned t r ∧ t < n
  writer : ∀ n index b p, s.calls n = some (.writePiece index b, .running p) → s.Writer index b p
  settled : ∀ n index b t bs, s.calls n = some (.writePiece index b, .returned t (.ok bs)) →
    s.LastWrite index n → s.piece index = b
  reader : ∀ n index start length p,
    s.calls n = some (.readBlock index start length, .running p) →
    Store.InRange s.store.torrent (.readBlock index start length) ∧ p.All IsRead ∧
      (s.Quiet index n → s.Reader index start length p) ∧
      (s.store.cacheCapacity ≠ 0 → s.Quiet index n)
  cached : ∀ index p, s.store.cached index = some p →
    p = s.piece index ∧ ∀ n b q, s.calls n ≠ some (.writePiece index b, .running q)
  fresh : s.Fresh

/-- What a step that changes one call has to keep. -/
structure Change (s : Shared) (cache : PieceCache) (contents : Contents) (n : Nat) (c : BlockCall)
    (st : CallState) : Prop where
  old : n = s.now ∨ ∃ p, s.calls n = some (c, .running p)
  new : (∃ p, st = .running p) ∨ ∃ r, st = .returned s.now r
  grows : s.contents.Grows contents
  pieces : ∀ j, s.store.piece contents j = s.piece j ∨
    ∃ b p, s.calls n = some (.writePiece j b, .running p)
  started : n = s.now → ∀ index b, c = .writePiece index b → s.Quiet index n ∧
    (s.store.cacheCapacity ≠ 0 → ∀ m start length p,
      s.calls m ≠ some (.readBlock index start length, .running p))
  writes : ∀ index b p, c = .writePiece index b → st = .running p →
    (s.next cache contents n c st).Writer index b p
  wrote : ∀ index b t bs, c = .writePiece index b → st = .returned t (.ok bs) →
    s.store.piece contents index = b
  reads : ∀ index start length p, c = .readBlock index start length → st = .running p →
    Store.InRange s.store.torrent (.readBlock index start length) ∧ p.All IsRead ∧
      (s.Quiet index n → (s.next cache contents n c st).Reader index start length p) ∧
      (s.store.cacheCapacity ≠ 0 → s.Quiet index n)
  read : ∀ index start length t r, c = .readBlock index start length → st = .returned t r →
    Store.InRange s.store.torrent (.readBlock index start length) →
    ∀ w b t bs, s.calls w = some (.writePiece index b, .returned t (.ok bs)) →
      s.LastWrite index w → t < n → r = .ok (window b start length) ∨ ∃ msg, r = .error (.io msg)
  cached : ∀ index p, ({ s.store with cache } : Store).cached index = some p →
    p = s.store.piece contents index ∧ ∀ m b q,
      (s.next cache contents n c st).calls m ≠ some (.writePiece index b, .running q)

section Next

variable {s : Shared} {cache : PieceCache} {contents : Contents} {n : Nat} {c : BlockCall}
  {st : CallState}

lemma next_calls_self : (s.next cache contents n c st).calls n = some (c, st) :=
  Function.update_self ..

lemma next_calls_of_ne {m : Nat} (h : m ≠ n) :
    (s.next cache contents n c st).calls m = s.calls m := Function.update_of_ne h ..

lemma next_calls {m : Nat} {x : BlockCall × CallState}
    (h : (s.next cache contents n c st).calls m = some x) :
    (m = n ∧ x = (c, st)) ∨ (m ≠ n ∧ s.calls m = some x) := by
  rcases eq_or_ne m n with rfl | hne
  · rw [next_calls_self] at h
    exact .inl ⟨rfl, (some.inj h).symm⟩
  · rw [next_calls_of_ne hne] at h
    exact .inr ⟨hne, h⟩

section

variable (h : s.Change cache contents n c st)
include h

lemma Change.kept (hi : s.Inv) {m : Nat} {c' : BlockCall} {st' : CallState}
    (hm : s.calls m = some (c', st')) :
    ∃ st'', (s.next cache contents n c st).calls m = some (c', st'') := by
  rcases eq_or_ne m n with rfl | hne
  · rcases h.old with hnow | ⟨p, hp⟩
    · exact absurd (hi.past m _ hm) (by omega)
    · obtain ⟨rfl, -⟩ : c = c' ∧ _ := by simpa using hp.symm.trans hm
      exact ⟨st, next_calls_self⟩
  · exact ⟨st', (next_calls_of_ne hne).trans hm⟩

lemma Change.lastWrite (hi : s.Inv) {index m : Nat}
    (hl : (s.next cache contents n c st).LastWrite index m) : s.LastWrite index m := by
  intro k b st' hk
  obtain ⟨st'', hk'⟩ := h.kept hi hk
  exact hl k b st'' hk'

/-- If all writes of a piece have returned by an earlier time after the step, then they had
before. -/
lemma Change.quiet (hi : s.Inv) {index m : Nat} (hm : m ≤ s.now)
    (hq : (s.next cache contents n c st).Quiet index m) : s.Quiet index m := by
  intro k b st' hk
  rcases eq_or_ne k n with rfl | hne
  · obtain ⟨st'', hk'⟩ := h.kept hi hk
    obtain ⟨t, r, hret, hlt⟩ := hq k b st'' hk'
    -- the call has returned just now, if at all
    obtain ⟨-, rfl⟩ : _ ∧ st = st'' := by simpa using next_calls_self.symm.trans hk'
    rcases h.new with ⟨p, rfl⟩ | ⟨r', rfl⟩
    · cases hret
    · cases hret
      omega
  · exact hq k b st' ((next_calls_of_ne hne).trans hk)

end

/-- Two writes of a piece do not both run. -/
lemma Inv.running_unique (hi : s.Inv) {m index : Nat} {b b' : Bytes} {p p' : Blocking Bytes}
    (hm : s.calls m = some (.writePiece index b, .running p))
    (hn : s.calls n = some (.writePiece index b', .running p')) : m = n := by
  rcases Nat.lt_trichotomy m n with hlt | heq | hgt
  · obtain ⟨t, r, hret, -⟩ := hi.serial n index b' _ hn m b _ hm hlt
    cases hret
  · exact heq
  · obtain ⟨t, r, hret, -⟩ := hi.serial m index b _ hm n b' _ hn hgt
    cases hret

lemma Change.rely (h : s.Change cache contents n c st) {index : Nat}
    (guar : Contents → Contents → Prop)
    (hno : ∀ b p, s.calls n ≠ some (.writePiece index b, .running p)) :
    s.store.piece contents index = s.piece index ∧
      (setting s.store.segments (s.store.torrent.pieceStart index)
        (s.store.torrent.pieceSize index) False guar).rely s.contents contents := by
  rcases h.pieces index with heq | ⟨b, p, hn⟩
  · exact ⟨heq, heq.symm, h.grows⟩
  · exact absurd hn (hno b p)

variable (hi : s.Inv)
include hi

variable (h : s.Change cache contents n c st)
include h

lemma Inv.next_serial :
    ∀ k index b st₁, (s.next cache contents n c st).calls k = some (.writePiece index b, st₁) →
      ∀ m b' st', (s.next cache contents n c st).calls m = some (.writePiece index b', st') →
      m < k → ∃ t r, st' = .returned t r ∧ t < k := by
  intro k index b st₁ hk m b' st' hm hlt
  rcases next_calls hk with ⟨rfl, hx⟩ | ⟨hkn, hk₀⟩
  · obtain ⟨rfl, -⟩ := Prod.mk.inj hx
    rcases next_calls hm with ⟨rfl, -⟩ | ⟨-, hm⟩
    · exact absurd hlt (Nat.lt_irrefl _)
    · rcases h.old with hnow | ⟨p, hp⟩
      · exact (h.started hnow index b rfl).1 m b' st' hm
      · exact hi.serial k index b _ hp m b' st' hm hlt
  · rcases next_calls hm with ⟨rfl, hx⟩ | ⟨-, hm⟩
    · obtain ⟨rfl, -⟩ := Prod.mk.inj hx
      rcases h.old with hnow | ⟨p, hp⟩
      · exact absurd (hi.past k _ hk₀) (by omega)
      · -- a write that runs has no later one
        obtain ⟨t, r, hret, -⟩ := hi.serial k index b _ hk₀ m b' _ hp hlt
        cases hret
    · exact hi.serial k index b _ hk₀ m b' st' hm hlt

lemma Inv.next_settled :
    ∀ k index b t bs,
      (s.next cache contents n c st).calls k = some (.writePiece index b, .returned t (.ok bs)) →
      (s.next cache contents n c st).LastWrite index k → s.store.piece contents index = b := by
  intro k index b t bs hk hl
  rcases next_calls hk with ⟨rfl, hx⟩ | ⟨hkn, hk⟩
  · obtain ⟨rfl, rfl⟩ := Prod.mk.inj hx
    exact h.wrote index b t bs rfl rfl
  · have hl := h.lastWrite hi hl
    refine (h.rely (fun _ _ => True) fun b' p hn => ?_).1.trans (hi.settled k index b t bs hk hl)
    have hlt : n < k := Nat.lt_of_le_of_ne (hl n b' _ hn) (Ne.symm hkn)
    obtain ⟨t', r, hret, -⟩ := hi.serial k index b _ hk n b' _ hn hlt
    cases hret

lemma Inv.next_reader :
    ∀ k index start length p,
      (s.next cache contents n c st).calls k = some (.readBlock index start length, .running p) →
      Store.InRange s.store.torrent (.readBlock index start length) ∧ p.All IsRead ∧
        ((s.next cache contents n c st).Quiet index k →
          (s.next cache contents n c st).Reader index start length p) ∧
        (s.store.cacheCapacity ≠ 0 → (s.next cache contents n c st).Quiet index k) := by
  intro k index start length p hk
  rcases next_calls hk with ⟨rfl, hx⟩ | ⟨hkn, hk₀⟩
  · obtain ⟨rfl, rfl⟩ := Prod.mk.inj hx
    obtain ⟨hr, hall, hreader, hquiet⟩ := h.reads index start length p rfl rfl
    have hle : k ≤ s.now := by
      rcases h.old with rfl | ⟨p, hp⟩
      · exact le_rfl
      · exact Nat.le_of_lt (hi.past k _ hp)
    refine ⟨hr, hall, fun hq => hreader (h.quiet hi hle hq), fun hcap m b st' hm => ?_⟩
    rcases next_calls hm with ⟨-, hx⟩ | ⟨-, hm⟩
    · cases hx
    · exact hquiet hcap m b st' hm
  · obtain ⟨hr, hall, hreader, hquiet⟩ := hi.reader k index start length p hk₀
    refine ⟨hr, hall, fun hq => ?_, fun hcap m b st' hm => ?_⟩
    · have hq := h.quiet hi (Nat.le_of_lt (hi.past k _ hk₀)) hq
      obtain ⟨heq, hrely⟩ := h.rely _ fun b p hn => by
        obtain ⟨t, r, hret, -⟩ := hq n b _ hn
        cases hret
      have hwp := Prog.wp_stable (hreader hq) hrely
      rw [← heq] at hwp
      exact hwp
    · rcases next_calls hm with ⟨rfl, hx⟩ | ⟨-, hm⟩
      · obtain ⟨rfl, -⟩ := Prod.mk.inj hx
        rcases h.old with hnow | ⟨q, hq⟩
        · exact absurd hk₀ ((h.started hnow index b rfl).2 hcap k start length p)
        · obtain ⟨t, r, hret, -⟩ := hquiet hcap m b _ hq
          cases hret
      · exact hquiet hcap m b st' hm

lemma Inv.next_fresh : (s.next cache contents n c st).Fresh := by
  intro w index b t bs k start length t' r hw hl hk hlt hr
  have hlast := h.lastWrite hi hl
  rcases next_calls hk with ⟨rfl, hx⟩ | ⟨hkn, hk₀⟩
  · obtain ⟨rfl, rfl⟩ := Prod.mk.inj hx
    rcases next_calls hw with ⟨-, hx⟩ | ⟨-, hw⟩
    · cases hx
    · exact h.read index start length t' r rfl rfl hr w b t bs hw hlast hlt
  · rcases next_calls hw with ⟨rfl, hx⟩ | ⟨-, hw⟩
    · -- a write that returns now is later than every read started before
      obtain ⟨-, rfl⟩ := Prod.mk.inj hx
      have hpast := hi.past k _ hk₀
      rcases h.new with ⟨p, hp⟩ | ⟨r', hr'⟩
      · cases hp
      · cases hr'
        omega
    · exact hi.fresh w index b t bs k start length t' r hw hlast hk₀ hlt hr

/-- The step lemma. -/
lemma Inv.next : (s.next cache contents n c st).Inv where
  laid := ⟨hi.laid.wellFormed, hi.laid.files, hi.laid.distinct⟩
  past m x hm := by
    have hlt : m < s.now + 1 := by
      rcases next_calls hm with ⟨rfl, -⟩ | ⟨-, hm⟩
      · rcases h.old with rfl | ⟨p, hp⟩
        · exact Nat.lt_succ_self _
        · exact Nat.lt_succ_of_lt (hi.past m _ hp)
      · exact Nat.lt_succ_of_lt (hi.past m x hm)
    exact hlt
  returned m c' t r hm := by
    have hle : m ≤ t ∧ t < s.now + 1 := by
      rcases next_calls hm with ⟨rfl, hx⟩ | ⟨-, hm⟩
      · obtain ⟨rfl, rfl⟩ := Prod.mk.inj hx
        rcases h.new with ⟨p, hp⟩ | ⟨r', hr'⟩
        · cases hp
        · cases hr'
          rcases h.old with rfl | ⟨p, hp⟩
          · omega
          · have := hi.past m _ hp
            omega
      · have := hi.returned m c' t r hm
        omega
    exact hle
  serial := hi.next_serial h
  writer m index b p hm := by
    rcases next_calls hm with ⟨rfl, hx⟩ | ⟨hmn, hm⟩
    · obtain ⟨rfl, rfl⟩ := Prod.mk.inj hx
      exact h.writes index b p rfl rfl
    · obtain ⟨hlt, hwp⟩ := hi.writer m index b p hm
      exact ⟨hlt, Prog.wp_stable hwp (h.rely _ fun b' p' hn => hmn (hi.running_unique hm hn)).2⟩
  settled := hi.next_settled h
  reader := hi.next_reader h
  cached := h.cached
  fresh := hi.next_fresh h

end Next

/-! ## The steps -/

variable {s s' : Shared} {index : Nat} {c : BlockCall} {cache : PieceCache}

lemma new_inv {store : Store} (h : store.Laid) (hc : ∀ index, store.cached index = none)
    (contents : Contents) : (new store contents).Inv where
  laid := h
  past := nofun
  returned := nofun
  serial := nofun
  writer := nofun
  settled := nofun
  reader := nofun
  cached index p hp := by rw [new, hc] at hp; cases hp
  fresh := nofun

section

variable (hi : s.Inv)
include hi

section

variable {n : Nat}

lemma Inv.not_busy {write : Bool} (hb : ¬ s.Busy write index) {p : Blocking Bytes}
    (hn : s.calls n = some (c, .running p)) (hw : c.isWrite = write) : c.index ≠ index := by
  intro he
  exact hb ⟨n, hi.past n _ hn, by simp [runs, hn, hw, he]⟩

lemma Inv.quiet_now (hb : ¬ s.Busy true index) : s.Quiet index s.now := by
  intro m b st hm
  cases st with
  | running p => exact absurd rfl (hi.not_busy hb hm rfl)
  | returned t r => exact ⟨t, r, rfl, (hi.returned m _ t r hm).2⟩

lemma Inv.quiet_of_last {w index t : Nat} {b bs : Bytes}
    (hw : s.calls w = some (.writePiece index b, .returned t (.ok bs))) (hl : s.LastWrite index w)
    (hlt : t < n) : s.Quiet index n := by
  intro m b' st hm
  rcases Nat.lt_or_eq_of_le (hl m b' st hm) with hmw | rfl
  · obtain ⟨t', r, rfl, ht'⟩ := hi.serial w index b _ hw m b' st hm hmw
    have hret := hi.returned w _ t _ hw
    exact ⟨t', r, rfl, by omega⟩
  · obtain ⟨-, rfl⟩ : _ ∧ _ = st := by simpa using hw.symm.trans hm
    exact ⟨t, _, rfl, hlt⟩

lemma Inv.started {b : Bytes} (hok : s.Serial (.start (.writePiece index b))) :
    s.Quiet index s.now ∧ (s.store.cacheCapacity ≠ 0 → ∀ m start length p,
      s.calls m ≠ some (.readBlock index start length, .running p)) := by
  refine ⟨hi.quiet_now hok.1, fun hcap m start length p hm => ?_⟩
  rcases hok.2 with h0 | hb
  · exact hcap h0
  · exact hi.not_busy hb hm rfl rfl

lemma Inv.cached_next {st : CallState} {p : Bytes} (hp : s.store.cached index = some p)
    (hc : ∀ b q, (c, st) ≠ (.writePiece index b, .running q)) :
    p = s.store.piece s.contents index ∧ ∀ m b q,
      (s.next cache s.contents n c st).calls m ≠ some (.writePiece index b, .running q) := by
  obtain ⟨heq, hno⟩ := hi.cached index p hp
  refine ⟨heq, fun m b q hm => ?_⟩
  rcases next_calls hm with ⟨-, hx⟩ | ⟨-, hm⟩
  · exact hc b q hx.symm
  · exact hno m b q hm

lemma Inv.start_outOfRange (hok : s.Serial (.start c)) (hc : ¬ Store.InRange s.store.torrent c)
    (a : Bytes) :
    s.Change s.store.cache s.contents s.now c
      (.returned s.now (FlatArray.call s.store.torrent a c).1) where
  old := .inl rfl
  new := .inr ⟨_, rfl⟩
  grows _ := le_rfl
  pieces _ := .inl rfl
  started _ index b hcall := by
    subst hcall
    exact hi.started hok
  writes _ _ _ _ := nofun
  wrote _ _ _ bs _ hst := by
    obtain ⟨-, hr⟩ := CallState.returned.inj hst
    exact absurd hr (Store.flat_outOfRange hc a bs)
  reads _ _ _ _ _ := nofun
  read _ _ _ _ _ hcall _ hr := absurd (hcall ▸ hr) hc
  cached _ _ hp := hi.cached_next hp nofun

lemma Inv.start_write {buf : Bytes} (hok : s.Serial (.start (.writePiece index buf)))
    (hc : Store.InRange s.store.torrent (.writePiece index buf))
    (hcache : ∀ j p, ({ s.store with cache } : Store).cached j = some p →
      j ≠ index ∧ s.store.cached j = some p) :
    s.Change cache s.contents s.now (.writePiece index buf)
      (.running (s.store.writeClosure index buf)) where
  old := .inl rfl
  new := .inl ⟨_, rfl⟩
  grows _ := le_rfl
  pieces _ := .inl rfl
  started _ index b hcall := by
    cases hcall
    exact hi.started hok
  writes index b p hcall hst := by
    cases hcall
    cases hst
    exact ⟨hc.1, Prog.wp_mono (fun r d h => h.1)
      (hi.laid.writeClosure_wp hc.1 hc.2 False s.contents)⟩
  wrote _ _ _ _ _ := nofun
  reads _ _ _ _ := nofun
  read _ _ _ _ _ := nofun
  cached j p hp := by
    obtain ⟨hne, hold⟩ := hcache j p hp
    refine hi.cached_next hold fun b q hx => ?_
    cases hx
    exact hne rfl

lemma Inv.start_hit {index start length : Nat} {p : Bytes} (hp : s.store.cached index = some p)
    (hsame : ∀ j, ({ s.store with cache } : Store).cached j = s.store.cached j) :
    s.Change cache s.contents s.now (.readBlock index start length)
      (.returned s.now (.ok (window p start length))) where
  old := .inl rfl
  new := .inr ⟨_, rfl⟩
  grows _ := le_rfl
  pieces _ := .inl rfl
  started _ _ _ := nofun
  writes _ _ _ := nofun
  wrote _ _ _ _ := nofun
  reads _ _ _ _ _ := nofun
  read _ _ _ _ _ hcall hst _ w b t bs hw hl _ := by
    cases hcall
    cases hst
    left
    rw [(hi.cached _ p hp).1, ← hi.settled w _ b t bs hw hl]
  cached j q hq := hi.cached_next (hsame j ▸ hq) nofun

lemma Inv.start_miss {index start length : Nat}
    (hok : s.Serial (.start (.readBlock index start length)))
    (hc : Store.InRange s.store.torrent (.readBlock index start length))
    (hsame : ∀ j, ({ s.store with cache } : Store).cached j = s.store.cached j) :
    s.Change cache s.contents s.now (.readBlock index start length)
      (.running (s.store.readClosure index start length)) where
  old := .inl rfl
  new := .inl ⟨_, rfl⟩
  grows _ := le_rfl
  pieces _ := .inl rfl
  started _ _ _ := nofun
  writes _ _ _ := nofun
  wrote _ _ _ _ := nofun
  reads _ _ _ _ hcall hst := by
    cases hcall
    cases hst
    refine ⟨hc, ?_, fun _ => ?_, fun hcap => ?_⟩
    · unfold Store.readClosure
      split
      · exact readMapped_all _ _ _ _ _ _
      · exact readMapped_all _ _ _ _ _ _
    · exact Prog.wp_mono (fun r d h => h.1) (hi.laid.readClosure_wp hc.1 hc.2.2 rfl False.elim)
    · exact hi.quiet_now (hok.resolve_left hcap)
  read _ _ _ _ _ _ := nofun
  cached j q hq := hi.cached_next (hsame j ▸ hq) nofun

lemma Inv.start_step (hok : s.Serial (.start c)) (h : s.step (.start c) = some s') : s'.Inv := by
  by_cases hc : Store.InRange s.store.torrent c
  · cases c with
    | writePiece index buf =>
      obtain ⟨cache, hstart, hcache⟩ := Store.start_write hi.laid hc
      simp only [step, hstart, some.injEq] at h
      subst h
      exact hi.next (hi.start_write hok hc hcache)
    | readBlock index start length =>
      obtain ⟨cache, hsame, hhit, hmiss⟩ := Store.start_read hi.laid hc
      cases hget : s.store.cached index with
      | some p =>
        have hlen : start + length ≤ p.length := by
          rw [(hi.cached index p hget).1, hi.laid.length_piece s.contents hc.1]
          exact hc.2.2
        have hstart := hhit p hget
        rw [Store.sliceOf_eq hlen] at hstart
        simp only [step, hstart, map_some, some.injEq] at h
        subst h
        exact hi.next (hi.start_hit hget hsame)
      | none =>
        simp only [step, hmiss hget, some.injEq] at h
        subst h
        exact hi.next (hi.start_miss hok hc hsame)
  · obtain ⟨hstart, -⟩ := Store.start_outOfRange hi.laid hc []
    simp only [step, hstart, some.injEq] at h
    subst h
    exact hi.next (hi.start_outOfRange hok hc [])

lemma Inv.io_write {index : Nat} {b : Bytes} {e : IoOp} {k : e.Answer → Blocking Bytes}
    (hn : s.calls n = some (.writePiece index b, .running (.call e k))) (o : Outcome) :
    s.Change s.store.cache (s.contents.perform e o).2 n (.writePiece index b)
      (.running (k (s.contents.perform e o).1)) := by
  obtain ⟨hlt, hwp⟩ := hi.writer n index b _ hn
  obtain ⟨hout, hwp⟩ := Prog.wp_step hwp (o := o) False.elim
  refine ⟨.inr ⟨_, hn⟩, .inl ⟨_, rfl⟩, hout.2.2, fun j => ?_, fun hnow => ?_, ?_, fun _ _ _ _ _ => nofun,
    fun _ _ _ _ => nofun, fun _ _ _ _ _ => nofun, fun j p hp => ?_⟩
  · rcases eq_or_ne j index with rfl | hne
    · exact .inr ⟨b, _, hn⟩
    · exact .inl (Store.piece_eq_of_sameOutside hne hout)
  · exact absurd (hi.past n _ hn) (by omega)
  · intro index' b' p hcall hst
    cases hcall
    cases hst
    exact ⟨hlt, hwp⟩
  · obtain ⟨heq, hno⟩ := hi.cached j p hp
    have hne : j ≠ index := fun he => hno n b _ (he ▸ hn)
    refine ⟨heq.trans (Store.piece_eq_of_sameOutside hne hout).symm, fun m b' q hm => ?_⟩
    rcases next_calls hm with ⟨-, hx⟩ | ⟨-, hm⟩
    · cases hx
      exact hne rfl
    · exact hno m b' q hm

lemma Inv.io_read {index start length : Nat} {e : IoOp} {k : e.Answer → Blocking Bytes}
    (hn : s.calls n = some (.readBlock index start length, .running (.call e k))) (o : Outcome) :
    (s.contents.perform e o).2 = s.contents ∧
    s.Change s.store.cache s.contents n (.readBlock index start length)
      (.running (k (s.contents.perform e o).1)) := by
  obtain ⟨hr, hall, hreader, hquiet⟩ := hi.reader n index start length _ hn
  have hsame : (s.contents.perform e o).2 = s.contents := by
    cases e with
    | write file buf offset => exact hall.1.elim
    | read file len offset => cases o <;> rfl
  refine ⟨hsame, .inr ⟨_, hn⟩, .inl ⟨_, rfl⟩, fun _ => le_rfl, fun _ => .inl rfl,
    fun _ _ _ => nofun, fun _ _ _ => nofun, fun _ _ _ _ => nofun, ?_, fun _ _ _ _ _ _ => nofun,
    fun j p hp => hi.cached_next hp nofun⟩
  intro index' start' length' p hcall hst
  cases hcall
  cases hst
  refine ⟨hr, hall.2 _, fun hq => ?_, hquiet⟩
  have hwp := (Prog.wp_step (hreader hq) (o := o) False.elim).2
  simp only [setting] at hwp
  rw [hsame] at hwp
  exact hwp

lemma Inv.io_step {o : Outcome} (h : s.step (.io n o) = some s') : s'.Inv := by
  simp only [step] at h
  split at h
  · rename_i c e k hn
    cases h
    cases c with
    | writePiece index b => exact hi.next (hi.io_write hn o)
    | readBlock index start length =>
      obtain ⟨hsame, hch⟩ := hi.io_read hn o
      rw [hsame]
      exact hi.next hch
  · cases h

/-- A call whose closure has failed. -/
lemma Inv.resume_error {msg : String} (hn : s.calls n = some (c, .running (.ret (.error msg)))) :
    s.Change s.store.cache s.contents n c (.returned s.now (.error (.io msg))) where
  old := .inr ⟨_, hn⟩
  new := .inr ⟨_, rfl⟩
  grows _ := le_rfl
  pieces _ := .inl rfl
  started hnow := absurd (hi.past n _ hn) (by omega)
  writes _ _ _ _ := nofun
  wrote _ _ _ _ _ := nofun
  reads _ _ _ _ _ := nofun
  read _ _ _ _ _ _ hst _ _ _ _ _ _ _ _ := by
    cases hst
    exact .inr ⟨msg, rfl⟩
  cached _ _ hp := hi.cached_next hp nofun

lemma Inv.resume_write {index : Nat} {b bs : Bytes}
    (hn : s.calls n = some (.writePiece index b, .running (.ret (.ok bs)))) :
    s.Change s.store.cache s.contents n (.writePiece index b) (.returned s.now (.ok [])) where
  old := .inr ⟨_, hn⟩
  new := .inr ⟨_, rfl⟩
  grows _ := le_rfl
  pieces _ := .inl rfl
  started hnow := absurd (hi.past n _ hn) (by omega)
  writes _ _ _ _ := nofun
  wrote _ _ _ _ hcall _ := by
    cases hcall
    exact Prog.wp_done (hi.writer n index b _ hn).2 bs rfl
  reads _ _ _ _ := nofun
  read _ _ _ _ _ := nofun
  cached _ _ hp := hi.cached_next hp nofun

lemma Inv.resume_read {index start length : Nat} {piece out : Bytes}
    (hn : s.calls n = some (.readBlock index start length, .running (.ret (.ok piece))))
    (hout : (if s.store.cacheCapacity > 0 then sliceOf piece start length else some piece) =
      some out)
    (hcache : ∀ j p, ({ s.store with cache } : Store).cached j = some p →
      (j = index ∧ p = piece ∧ s.store.cacheCapacity > 0) ∨ s.store.cached j = some p) :
    s.Change cache s.contents n (.readBlock index start length) (.returned s.now (.ok out)) := by
  obtain ⟨hr, -, hreader, hquiet⟩ := hi.reader n index start length _ hn
  have hpiece : s.Quiet index n → piece = if s.store.cacheCapacity > 0 then s.piece index else
      window (s.piece index) start length := fun hq => Prog.wp_done (hreader hq) piece rfl
  refine ⟨.inr ⟨_, hn⟩, .inr ⟨_, rfl⟩, fun _ => le_rfl, fun _ => .inl rfl,
    fun _ _ _ => nofun, fun _ _ _ => nofun, fun _ _ _ _ => nofun, fun _ _ _ _ _ => nofun, ?_, ?_⟩
  · intro index' start' length' t r hcall hst hr w b t' bs hw hl hlt
    cases hcall
    cases hst
    left
    have hq := hpiece (hi.quiet_of_last hw hl hlt)
    rw [← hi.settled w index b t' bs hw hl]
    split_ifs at hout with hcap
    · rw [if_pos hcap] at hq
      rw [hq, Store.sliceOf_eq (by rw [hi.laid.length_piece s.contents hr.1]; exact hr.2.2)] at hout
      exact congrArg Except.ok (some.inj hout).symm
    · rw [if_neg hcap] at hq
      rw [← hq]
      exact congrArg Except.ok (some.inj hout).symm
  · intro j p hp
    rcases hcache j p hp with ⟨rfl, rfl, hcap⟩ | hold
    · have hq := hquiet (Nat.ne_of_gt hcap)
      have heq := hpiece hq
      rw [if_pos hcap] at heq
      refine ⟨heq, fun m b q hm => ?_⟩
      rcases next_calls hm with ⟨-, hx⟩ | ⟨-, hm⟩
      · cases hx
      · obtain ⟨t, r, hret, -⟩ := hq m b _ hm
        cases hret
    · exact hi.cached_next hold nofun

lemma Inv.resume_step (h : s.step (.resume n) = some s') : s'.Inv := by
  simp only [step] at h
  split at h
  · rename_i c r hn
    cases r with
    | error msg =>
      simp only [Store.resume, map_some, some.injEq] at h
      subst h
      exact hi.next (hi.resume_error hn)
    | ok piece =>
      cases c with
      | writePiece index b =>
        simp only [Store.resume, map_some, some.injEq] at h
        subst h
        exact hi.next (hi.resume_write hn)
      | readBlock index start length =>
        obtain ⟨cache, hres, hcache⟩ := Store.resume_read s.store index start length piece
        rw [hres, map_map] at h
        obtain ⟨out, hout, rfl⟩ := map_eq_some_iff.1 h
        exact hi.next (hi.resume_read hn hout hcache)
  · cases h

end

lemma Inv.step {a : SharedAct} (hok : s.Serial a) (h : s.step a = some s') : s'.Inv := by
  cases a with
  | start c => exact hi.start_step hok h
  | io n o => exact hi.io_step h
  | resume n => exact hi.resume_step h

end

/-- In every run in which a write of a piece overlaps no other write of it and, if there is a
cache, no read of it, a read that is started after the last write of its piece has returned gets
what was written, or an I/O error. -/
theorem write_then_read (t : Torrent) (ht : t.WellFormed) (files : List Nat)
    (hf : files.length = t.files.length) (hnd : files.Nodup) (capacity : Nat) (contents : Contents)
    (as : List SharedAct) (s : Shared)
    (hrun : Run Shared.step Serial (new (.openWith t files capacity) contents) as s) : s.Fresh := by
  have hinv : s.Inv := by
    refine hrun.inv (fun hi hok h => Inv.step hi hok h) (new_inv ⟨ht, hf, hnd⟩ (fun index => ?_) _)
    unfold Store.cached
    split
    · rfl
    · rfl
  exact hinv.fresh

def readAcrossWrite : List SharedAct :=
  [.start (.readBlock 0 0 2), .io 0 (.transfer 1), .io 0 (.transfer 1),
    .start (.writePiece 0 [7, 8]), .io 3 (.transfer 1), .io 3 (.transfer 1), .resume 3, .resume 0,
    .start (.readBlock 0 0 2)]

/-- The same calls one after the other. -/
def readThenWrite : List SharedAct :=
  [.start (.readBlock 0 0 2), .io 0 (.transfer 1), .io 0 (.transfer 1), .resume 0,
    .start (.writePiece 0 [7, 8]), .io 4 (.transfer 1), .io 4 (.transfer 1), .resume 4,
    .start (.readBlock 0 0 2), .io 8 (.transfer 1), .io 8 (.transfer 1), .resume 8]

def twoFilesShared (capacity : Nat) : Shared :=
  new (.openWith Store.twoFiles [0, 1] capacity) fun _ => [0, 0]

theorem write_then_read_serial :
    ∃ s, Run Shared.step Serial (twoFilesShared 1) readThenWrite s ∧ s.Fresh := by
  have hrun : Run Shared.step Serial (twoFilesShared 1) readThenWrite _ :=
    .of_isSome
  exact ⟨_, hrun, write_then_read Store.twoFiles Store.twoFiles_wellFormed [0, 1] rfl (by decide) 1
    _ _ _ hrun⟩

/-- A call is under an earlier time. -/
lemma past_step {a : SharedAct} (hp : ∀ n x, s.calls n = some x → n < s.now)
    (h : s.step a = some s') : ∀ n x, s'.calls n = some x → n < s'.now := by
  have hnext : ∀ (cache : PieceCache) (contents : Contents) (n : Nat) (c : BlockCall)
      (st : CallState), n ≤ s.now → ∀ m x, (s.next cache contents n c st).calls m = some x →
      m < (s.next cache contents n c st).now := by
    intro cache contents n c st hn m x hm
    refine Nat.lt_succ_of_le ?_
    rcases next_calls hm with ⟨rfl, -⟩ | ⟨-, hm⟩
    · exact hn
    · exact Nat.le_of_lt (hp m x hm)
  cases a <;> simp only [step] at h
  case start c =>
    split at h
    · cases h
    · cases h
      exact hnext _ _ _ _ _ le_rfl
    · cases h
      exact hnext _ _ _ _ _ le_rfl
  case io n o =>
    split at h
    · rename_i c e k hn
      cases h
      exact hnext _ _ _ _ _ (Nat.le_of_lt (hp n _ hn))
    · cases h
  case resume n =>
    split at h
    · rename_i c r hn
      obtain ⟨x, -, rfl⟩ := map_eq_some_iff.1 h
      exact hnext _ _ _ _ _ (Nat.le_of_lt (hp n _ hn))
    · cases h

lemma readAcrossWrite_runs :
    (exec Shared.step anyStep (twoFilesShared 1) readAcrossWrite).isSome := by decide +kernel

def afterReadAcrossWrite : Shared :=
  (exec Shared.step anyStep (twoFilesShared 1) readAcrossWrite).get readAcrossWrite_runs

/-- Without the condition the read after the write gets the bytes from before it: the read that
overlapped the write has put them into the cache. -/
theorem write_then_read_stale :
    ¬ ∀ (t : Torrent), t.WellFormed → ∀ (files : List Nat), files.length = t.files.length →
      files.Nodup → ∀ (capacity : Nat) (contents : Contents) (as : List SharedAct) (s : Shared),
        Run Shared.step anyStep (new (.openWith t files capacity) contents) as s → s.Fresh := by
  intro h
  have hrun : Run Shared.step anyStep (twoFilesShared 1) readAcrossWrite afterReadAcrossWrite :=
    .of_isSome readAcrossWrite_runs
  have hpast := hrun.inv (fun hp _ hs => past_step hp hs) nofun
  have hfresh := h Store.twoFiles Store.twoFiles_wellFormed [0, 1] rfl (by decide) 1 _ _ _ hrun
  have hnow : afterReadAcrossWrite.now = 9 := by decide +kernel
  -- the calls after the write, started at 3, are no writes
  have hlater : ∀ m < 9, 3 < m →
      (afterReadAcrossWrite.calls m).map (fun x => x.1.isWrite) ≠ some true := by decide +kernel
  refine absurd (hfresh 3 0 [7, 8] 6 [] 8 0 2 8 (.ok [0, 0]) (by with_unfolding_all rfl) ?_
    (by with_unfolding_all rfl) (by decide) ⟨by decide +kernel, by decide, by decide +kernel⟩)
    (by simp [window])
  intro m b st hm
  by_contra hgt
  have hlt := hpast m _ hm
  rw [hnow] at hlt
  exact hlater m hlt (by omega) (by rw [hm]; rfl)

end Shared

end BitRev
