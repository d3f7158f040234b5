import BitRev.Storage.Concurrent

/-!
# How much a read returns

In any run of calls on a shared storage, whatever overlaps, a `read_block` that succeeds returns
as many bytes as it was asked for: `Shared.Exact`. With a cache the block is a slice of a piece;
without one the closure reads the stretches of the files that the block overlaps, and these add up
to the block (`readMapped_length`).
-/

namespace BitRev

open List Option

namespace Storage

/-- The setting of a closure that relies on nothing and promises nothing. -/
def anywhere : Setting IoOp IoOp.Answer Contents Outcome where
  perform := Contents.perform
  allowed _ := True
  rely _ _ := True
  guar _ _ := True
  rely_refl _ := trivial
  rely_trans _ _ := trivial

/-- Wherever it runs, the closure returns this many bytes if it succeeds. -/
def Returns (p : Blocking Bytes) (len : Nat) : Prop :=
  ∀ d, p.wp anywhere (fun r _ => ∀ bs, r = .ok bs → bs.length = len) d

lemma returns_error (msg : String) (len : Nat) : Returns (.ret (.error msg)) len :=
  fun _ => Prog.wp_ret fun _ _ => nofun

lemma returns_ok {bs : Bytes} {len : Nat} (h : bs.length = len) : Returns (.ret (.ok bs)) len := by
  intro d
  refine Prog.wp_ret fun _ _ => ?_
  rintro bs ⟨⟩
  exact h

lemma Returns.step {e : IoOp} {k : e.Answer → Blocking Bytes} {len : Nat}
    (h : Returns (.call e k) len) (d : Contents) (o : Outcome) :
    Returns (k (d.perform e o).1) len :=
  fun _ => Prog.wp_stable (Prog.wp_step (h d) (o := o) trivial).2 trivial

lemma readAt_length (file : Nat) (read : Bytes) (m offset : Nat) :
    Returns (readAt file read m offset) (read.length + m) := by
  fun_induction readAt file read m offset with
  | case1 read offset => exact returns_ok (Nat.add_zero _).symm
  | case2 read m offset hne ih =>
    intro d d' _ o _
    refine ⟨trivial, ?_⟩
    cases o with
    | fail msg => exact returns_error _ _ _
    | transfer k =>
      simp only [anywhere, Contents.perform]
      have hle : (window (d' file) offset (min k m)).length ≤ m := by
        rw [window, length_take]
        omega
      split_ifs with hz
      · exact returns_error _ _ _
      · have hrest := ih _ hz
        rw [length_append, Nat.add_assoc, Nat.add_sub_cancel' hle] at hrest
        exact hrest _

/-- The stretches from `n` on that lie in the window. -/
lemma readMapped_length (files : List Nat) (start stop : Nat) :
    ∀ (ms : List PieceFileMapping) (n : Nat) (out : Bytes),
      Returns (readMapped files start stop ms n out)
        (out.length + (min (n + (ms.map PieceFileMapping.length).sum) stop - max n start))
  | [], n, out => returns_ok (by simp)
  | m :: ms, n, out => by
    have ih := readMapped_length files start stop ms (n + m.length)
    rw [readMapped, map_cons, sum_cons]
    split_ifs with hov
    · split
      · exact returns_error _ _
      · intro d
        refine Prog.wp_bind (Prog.wp_mono (fun r d' hr => ?_) (readAt_length _ _ _ _ d))
        cases r with
        | error e => exact returns_error _ _ _
        | ok chunk =>
          have hrest := ih (out ++ chunk)
          rw [length_append, hr chunk rfl, length_nil] at hrest
          convert hrest d' using 6
          omega
    · convert ih out using 1
      omega

lemma Tiles.sum {segs : List (Nat × Nat)} : ∀ {ms : List PieceFileMapping} {pos stop : Nat},
    Tiles segs pos ms stop → pos + (ms.map PieceFileMapping.length).sum = stop
  | [], _, _, h => h
  | m :: ms, _, _, h => by
    have hrest := h.2.sum
    rw [map_cons, sum_cons]
    omega

end Storage

open Storage

lemma Store.Laid.readClosure_length {st : Store} (h : st.Laid) {index start length : Nat}
    (hc : Store.InRange st.torrent (.readBlock index start length)) (h0 : st.cacheCapacity = 0) :
    Returns (st.readClosure index start length) length := by
  have hsum := (h.wellFormed.mapPieceToFiles_tiles h.files hc.1).sum
  have hlen := hc.2.2
  rw [Store.readClosure, if_neg (by omega)]
  convert readMapped_length st.files start (start + length) _ 0 [] using 1
  rw [length_nil]
  omega

namespace Shared

variable {s s' : Shared} {store : Store} {c : BlockCall}

structure Exact (s : Shared) : Prop where
  laid : s.store.Laid
  past : ∀ n x, s.calls n = some x → n < s.now
  running : ∀ n index start length p,
    s.calls n = some (.readBlock index start length, .running p) → s.store.cacheCapacity = 0 →
    Returns p length
  returned : ∀ n index start length t bs,
    s.calls n = some (.readBlock index start length, .returned t (.ok bs)) → bs.length = length

lemma Exact.new (h : store.Laid) (contents : Contents) :
    (Shared.new store contents).Exact := ⟨h, nofun, nofun, nofun⟩

/-- The step lemma. -/
lemma Exact.next (hi : s.Exact) {cache : PieceCache} {contents : Contents} {n : Nat}
    {st : CallState} (hn : n ≤ s.now)
    (hrun : ∀ index start length p, c = .readBlock index start length → st = .running p →
      s.store.cacheCapacity = 0 → Returns p length)
    (hret : ∀ index start length t bs, c = .readBlock index start length →
      st = .returned t (.ok bs) → bs.length = length) : (s.next cache contents n c st).Exact where
  laid := ⟨hi.laid.wellFormed, hi.laid.files, hi.laid.distinct⟩
  past m x hm := by
    have hlt : m < s.now + 1 := by
      rcases next_calls hm with ⟨rfl, -⟩ | ⟨-, hm⟩
      · omega
      · exact Nat.lt_succ_of_lt (hi.past m x hm)
    exact hlt
  running m index start length p hm h0 := by
    rcases next_calls hm with ⟨-, hx⟩ | ⟨-, hm⟩
    · obtain ⟨rfl, rfl⟩ := Prod.mk.inj hx
      exact hrun index start length p rfl rfl h0
    · exact hi.running m index start length p hm h0
  returned m index start length t bs hm := by
    rcases next_calls hm with ⟨-, hx⟩ | ⟨-, hm⟩
    · obtain ⟨rfl, rfl⟩ := Prod.mk.inj hx
      exact hret index start length t bs rfl rfl
    · exact hi.returned m index start length t bs hm

lemma sliceOf_length {bs out : Bytes} {start len : Nat} (h : sliceOf bs start len = some out) :
    out.length = len := by
  unfold sliceOf at h
  split_ifs at h
  cases h
  exact length_window ‹_›

section

variable (hi : s.Exact)
include hi

lemma Exact.start_read {index start length : Nat} {poll : Poll}
    (h : s.store.readBlock index start length = some (store, poll)) :
    (∀ p, poll = .pending p → s.store.cacheCapacity = 0 → Returns p length) ∧
      ∀ bs, poll = .ready (.ok bs) → bs.length = length := by
  unfold Store.readBlock at h
  split at h
  · cases h
    exact ⟨nofun, nofun⟩
  rename_i hi₀
  split at h
  · cases h
    exact ⟨nofun, nofun⟩
  rename_i hlen
  rw [hi.laid.wellFormed.calculatePieceSize_eq (Nat.lt_of_not_le hi₀)] at hlen
  simp only at h
  split at h
  · rw [map_eq_some_iff] at h
    obtain ⟨out, hout, hx⟩ := h
    cases hx
    refine ⟨nofun, ?_⟩
    rintro bs ⟨⟩
    exact sliceOf_length hout
  · cases h
    refine ⟨?_, nofun⟩
    rintro p ⟨⟩ h0
    exact hi.laid.readClosure_length ⟨by omega, by omega, by omega⟩ h0

lemma Exact.start_call {poll : Poll} (h : s.store.start c = some (store, poll))
    {index start length : Nat} (hc : c = .readBlock index start length) :
    (∀ p, poll = .pending p → s.store.cacheCapacity = 0 → Returns p length) ∧
      ∀ bs, poll = .ready (.ok bs) → bs.length = length := by
  subst hc
  exact hi.start_read h

lemma Exact.resume_read {n index start length : Nat} {r : Except String Bytes} {bs : Bytes}
    (hn : s.calls n = some (.readBlock index start length, .running (.ret r)))
    (h : s.store.resume (.readBlock index start length) r = some (store, .ok bs)) :
    bs.length = length := by
  cases r with
  | error msg => cases h
  | ok piece =>
    simp only [Store.resume] at h
    split at h
    · rw [map_eq_some_iff] at h
      obtain ⟨out, hout, hx⟩ := h
      cases hx
      exact sliceOf_length hout
    · cases h
      exact Prog.wp_done (hi.running n index start length _ hn (by omega) s.contents) _ rfl

lemma Exact.step {a : SharedAct} (h : s.step a = some s') : s'.Exact := by
  cases a <;> simp only [Shared.step] at h
  case start c =>
    split at h
    · cases h
    · rename_i store r hstart
      cases h
      refine hi.next le_rfl (fun _ _ _ _ _ => by simp) fun index start length t bs hc hst => ?_
      obtain ⟨-, rfl⟩ := CallState.returned.inj hst
      exact (hi.start_call hstart hc).2 bs rfl
    · rename_i store p hstart
      cases h
      refine hi.next le_rfl (fun index start length p hc hst => ?_) fun _ _ _ _ _ _ => by simp
      cases hst
      exact (hi.start_call hstart hc).1 p rfl
  case io n o =>
    split at h
    · rename_i c e k hn
      cases h
      refine hi.next (Nat.le_of_lt (hi.past n _ hn)) (fun index start length p hc hst h0 => ?_)
        fun _ _ _ _ _ _ => by simp
      cases hst
      subst hc
      exact (hi.running n index start length _ hn h0).step s.contents o
    · cases h
  case resume n =>
    split at h
    · rename_i c r hn
      rw [map_eq_some_iff] at h
      obtain ⟨⟨store, r'⟩, hres, rfl⟩ := h
      refine hi.next (Nat.le_of_lt (hi.past n _ hn)) (fun _ _ _ _ _ => by simp)
        fun index start length t bs hc hst => ?_
      obtain ⟨-, rfl⟩ := CallState.returned.inj hst
      subst hc
      exact hi.resume_read hn hres
    · cases h

lemma Exact.kept {a : SharedAct} (h : s.step a = some s') {n : Nat} {st : CallState}
    (hn : s.calls n = some (c, st)) :
    ∃ st', s'.calls n = some (c, st') ∧ ∀ t r, st = .returned t r → st' = st := by
  have hpast := hi.past n _ hn
  have hold : ∀ {cache contents m c' st'}, m ≠ n → ∃ st'',
      (s.next cache contents m c' st').calls n = some (c, st'') ∧
        ∀ t r, st = .returned t r → st'' = st :=
    fun hne => ⟨st, (next_calls_of_ne hne.symm).trans hn, fun _ _ _ => rfl⟩
  -- a step of the call itself is one of a call that runs
  have hself : ∀ {cache contents m c' p st'}, s.calls m = some (c', .running p) → ∃ st'',
      (s.next cache contents m c' st').calls n = some (c, st'') ∧
        ∀ t r, st = .returned t r → st'' = st := by
    intro cache contents m c' p st' hm
    rcases eq_or_ne m n with rfl | hne
    · cases hn.symm.trans hm
      exact ⟨st', next_calls_self, nofun⟩
    · exact hold hne
  cases a <;> simp only [Shared.step] at h
  case start c' =>
    split at h
    · cases h
    · cases h
      exact hold (by omega)
    · cases h
      exact hold (by omega)
  case io m o =>
    split at h
    · rename_i hm
      cases h
      exact hself hm
    · cases h
  case resume m =>
    split at h
    · rename_i hm
      rw [map_eq_some_iff] at h
      obtain ⟨_, -, rfl⟩ := h
      exact hself hm
    · cases h

end

/-- A call that is started gets the present time as its number. -/
lemma step_start (h : s.step (.start c) = some s') : ∃ st, s'.calls s.now = some (c, st) := by
  simp only [step] at h
  split at h
  · cases h
  · cases h
    exact ⟨_, next_calls_self⟩
  · cases h
    exact ⟨_, next_calls_self⟩

theorem read_exact {contents : Contents} {as : List SharedAct} {n index start length t : Nat}
    {bs : Bytes} (hl : store.Laid) (h : Run step anyStep (.new store contents) as s)
    (hr : s.calls n = some (.readBlock index start length, .returned t (.ok bs))) :
    bs.length = length := by
  have hexact : s.Exact := h.inv (fun hi _ hs => hi.step hs) (.new hl contents)
  exact hexact.returned n index start length t bs hr

/-- A read that returns what a write has replaced. -/
theorem read_exact_stale : ∃ t bs, bs.length = 2 ∧
    afterReadAcrossWrite.calls 8 = some (.readBlock 0 0 2, .returned t (.ok bs)) :=
  have hr := by with_unfolding_all rfl
  ⟨8, [0, 0], read_exact ⟨Store.twoFiles_wellFormed, rfl, by decide⟩
    (.of_isSome readAcrossWrite_runs) hr, hr⟩

end Shared

end BitRev
