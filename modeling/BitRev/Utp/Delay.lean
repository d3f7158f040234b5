import Mathlib

/-!
# The base delay

`BaseDelay` of `utp/delay.rs` and `DelayHist` of `utp/conn.rs`: the least delay of the last thirteen
minutes, kept as the least of each minute in a ring that is turned when a sample comes. A sample
gets what it exceeds the least of its window by (`DelayHist.onSample_least`). Instants are in
nanoseconds, delays in microseconds.
-/

namespace BitRev.Utp

abbrev baseDelayBuckets : Nat := 13
def baseDelayBucket : Nat := 60 * 10 ^ 9

def u32Max : Nat := 2 ^ 32 - 1

structure BaseDelay where
  buckets : Fin baseDelayBuckets → Nat
  current : Fin baseDelayBuckets
  lastRotate : Nat

namespace BaseDelay

def new (now : Nat) : BaseDelay :=
  { buckets := fun _ => u32Max, current := Fin.ofNat baseDelayBuckets 0, lastRotate := now }

/-- The next bucket, emptied; the bucket after the last is the first. -/
def rotate (b : BaseDelay) : BaseDelay :=
  let current := Fin.ofNat baseDelayBuckets (b.current + 1)
  { buckets := Function.update b.buckets current u32Max, current
    lastRotate := b.lastRotate + baseDelayBucket }

/-- The loop of `on_sample`: a turn for each minute that has passed. -/
def catchUp (b : BaseDelay) (now : Nat) : BaseDelay :=
  if baseDelayBucket ≤ now - b.lastRotate then b.rotate.catchUp now else b
termination_by now - b.lastRotate
decreasing_by
  simp only [rotate, baseDelayBucket] at *
  omega

def onSample (b : BaseDelay) (delayUs now : Nat) : BaseDelay :=
  let b := b.catchUp now
  if delayUs < b.buckets b.current then
    { b with buckets := Function.update b.buckets b.current delayUs }
  else b

def min (b : BaseDelay) : Nat := (List.ofFn b.buckets).min?.getD 0

def queuingDelay (b : BaseDelay) (ourDelayUs : Nat) : Nat :=
  if b.min = u32Max then 0 else ourDelayUs - b.min

end BaseDelay

/-- A delay and when it was measured. -/
structure Sample where
  delayUs : Nat
  now : Nat

structure DelayHist where
  inner : BaseDelay

namespace DelayHist

def new (now : Nat) : DelayHist := ⟨.new now⟩

def onSample (h : DelayHist) (x : Sample) : DelayHist × Nat :=
  let inner := h.inner.onSample x.delayUs x.now
  (⟨inner⟩, inner.queuingDelay x.delayUs)

/-- After a sequence of samples. -/
def after (h : DelayHist) (past : List Sample) : DelayHist := past.foldl (fun h x => (h.onSample x).1) h

end DelayHist

/-- The whole minutes from `creation` to `t`, as `saturating_duration_since` counts. -/
def minute (creation t : Nat) : Nat := (t - creation) / baseDelayBucket

/-- The samples that a sample at `now` is compared with. -/
def window (creation now : Nat) (xs : List Sample) : Set Sample :=
  {x ∈ xs | minute creation now < minute creation x.now + baseDelayBuckets}

namespace BaseDelay

open Function List

variable {creation m t : Nat} {past : List Sample} {b : BaseDelay}

/-- The ring in minute `m`: the bucket of a minute not yet overwritten is the least of its samples. -/
structure Inv (creation : Nat) (past : List Sample) (m : Nat) (b : BaseDelay) : Prop where
  lastRotate : b.lastRotate = creation + m * baseDelayBucket
  current : b.current = Fin.ofNat baseDelayBuckets m
  elapsed : ∀ x ∈ past, minute creation x.now ≤ m
  le : ∀ x ∈ past, m < minute creation x.now + baseDelayBuckets →
    b.buckets (Fin.ofNat baseDelayBuckets (minute creation x.now)) ≤ x.delayUs
  attained : ∀ i, b.buckets i = u32Max ∨ ∃ x ∈ past, m < minute creation x.now + baseDelayBuckets ∧
    Fin.ofNat baseDelayBuckets (minute creation x.now) = i ∧ b.buckets i = x.delayUs

lemma Inv.rotate (h : Inv creation past m b) : Inv creation past (m + 1) b.rotate := by
  have hcur : Fin.ofNat baseDelayBuckets (b.current + 1) = Fin.ofNat baseDelayBuckets (m + 1) := by
    rw [h.current]
    simp [Fin.ext_iff]
  have hslot {n n' : Nat} :
      Fin.ofNat baseDelayBuckets n = Fin.ofNat baseDelayBuckets n' ↔ n % 13 = n' % 13 := Fin.ext_iff
  have hcount : baseDelayBuckets = 13 := rfl
  refine ⟨?_, hcur, fun x hx => Nat.le_succ_of_le (h.elapsed x hx), fun x hx hlo => ?_, fun i => ?_⟩
  · simp only [BaseDelay.rotate, h.lastRotate]
    rw [Nat.succ_mul, add_assoc]
  · simp only [BaseDelay.rotate, hcur]
    have hx' := h.elapsed x hx
    rw [update_of_ne (mt hslot.1 (by omega))]
    exact h.le x hx (by omega)
  · simp only [BaseDelay.rotate, hcur]
    rcases eq_or_ne i (Fin.ofNat baseDelayBuckets (m + 1)) with rfl | hne
    · exact .inl (update_self ..)
    · rw [update_of_ne hne]
      refine (h.attained i).imp id fun ⟨x, hx, hlo, hi, heq⟩ => ⟨x, hx, ?_, hi, heq⟩
      -- the samples thirteen minutes old are those of the bucket that is emptied
      by_contra hold
      exact hne (hi.symm.trans (hslot.2 (by omega)))

lemma Inv.catchUp (h : Inv creation past m b) (hm : m ≤ minute creation t) :
    Inv creation past (minute creation t) (b.catchUp t) := by
  have hrot := h.lastRotate
  have hmin : minute creation t = (t - creation) / 60000000000 := rfl
  simp only [baseDelayBucket] at hrot
  fun_induction BaseDelay.catchUp b t generalizing m with
  | case1 b hle ih =>
    simp only [baseDelayBucket] at hle
    exact ih h.rotate (by omega) (by simpa [baseDelayBucket] using h.rotate.lastRotate)
  | case2 b hlt =>
    simp only [baseDelayBucket] at hlt
    rwa [show minute creation t = m by omega]

lemma Inv.onSample {x : Sample} (h : Inv creation past m b) (hm : m ≤ minute creation x.now) :
    Inv creation (past ++ [x]) (minute creation x.now) (b.onSample x.delayUs x.now) := by
  obtain ⟨hrot, hcur, hpast, hle, hatt⟩ := h.catchUp hm
  have hnew : x ∈ past ++ [x] := by simp
  have hold {y : Sample} (hy : y ∈ past) : y ∈ past ++ [x] := mem_append_left _ hy
  have helapsed : ∀ y ∈ past ++ [x], minute creation y.now ≤ minute creation x.now := by
    simp only [forall_mem_append, forall_mem_singleton]
    exact ⟨hpast, le_refl _⟩
  unfold BaseDelay.onSample
  dsimp only
  split
  · rename_i hlt
    -- the bucket of the minute becomes the sample, which is less
    refine ⟨hrot, hcur, helapsed, fun y hy hlo => ?_, fun i => ?_⟩
    · rcases mem_append.1 hy with hy | hy
      · have := hle y hy hlo
        simp only [update_apply]
        split_ifs with heq
        · rw [heq] at this
          omega
        · exact this
      · rw [mem_singleton.1 hy]
        dsimp only
        rw [hcur, update_self]
    · simp only [update_apply]
      split_ifs with heq
      · exact .inr ⟨x, hnew, by omega, (heq.trans hcur).symm, rfl⟩
      · exact (hatt i).imp id fun ⟨y, hy, hrest⟩ => ⟨y, hold hy, hrest⟩
  · rename_i hge
    refine ⟨hrot, hcur, helapsed, forall_mem_append.2 ⟨hle, forall_mem_singleton.2 fun _ => ?_⟩,
      fun i => (hatt i).imp id fun ⟨y, hy, hrest⟩ => ⟨y, hold hy, hrest⟩⟩
    rw [← hcur]
    exact Nat.le_of_not_lt hge

lemma min_le (b : BaseDelay) (i : Fin baseDelayBuckets) : b.min ≤ b.buckets i := by
  have hmem : b.buckets i ∈ List.ofFn b.buckets := mem_ofFn.2 ⟨i, rfl⟩
  exact min?_getD_le_of_mem hmem

lemma exists_min (b : BaseDelay) : ∃ i, b.buckets i = b.min := by
  have hne : List.ofFn b.buckets ≠ [] := by simp [baseDelayBuckets]
  obtain ⟨a, ha⟩ := Option.isSome_iff_exists.1 (isSome_min?_iff.2 hne)
  have hmem := min?_mem ha
  rw [BaseDelay.min, ha]
  exact mem_ofFn.1 hmem

/-- What the ring answers a sample it holds with. -/
lemma Inv.queuingDelay {x : Sample} (h : Inv creation past (minute creation x.now) b)
    (hx : x ∈ past) (hfits : x.delayUs ≤ u32Max) :
    ∃ least, IsLeast (Sample.delayUs '' window creation x.now past) least ∧
      b.queuingDelay x.delayUs = x.delayUs - least := by
  have hlower : b.min ∈ lowerBounds (Sample.delayUs '' window creation x.now past) := by
    rintro _ ⟨y, ⟨hy, hlo⟩, rfl⟩
    exact (b.min_le _).trans (h.le y hy hlo)
  have hself : x ∈ window creation x.now past := ⟨hx, Nat.lt_add_of_pos_right (by decide)⟩
  have hle : b.min ≤ x.delayUs := hlower ⟨x, hself, rfl⟩
  have hval : b.queuingDelay x.delayUs = x.delayUs - b.min := by
    rw [BaseDelay.queuingDelay]
    split <;> omega
  refine ⟨b.min, ⟨?_, hlower⟩, hval⟩
  obtain ⟨i, hi⟩ := b.exists_min
  rcases h.attained i with hmax | ⟨y, hy, hlo, -, heq⟩
  · -- no sample of the window is below the greatest delay, so this one is it
    exact ⟨x, hself, by omega⟩
  · exact ⟨y, ⟨hy, hlo⟩, heq.symm.trans hi⟩

end BaseDelay

namespace DelayHist

variable {past : List Sample}

lemma after_inv (creation : Nat) (hmono : past.Pairwise (·.now ≤ ·.now)) :
    ∃ m, BaseDelay.Inv creation past m ((new creation).after past).inner ∧
      ∀ t, (∀ x ∈ past, x.now ≤ t) → m ≤ minute creation t := by
  induction past using List.reverseRecOn with
  | nil =>
    refine ⟨0, ⟨?_, rfl, nofun, nofun, fun _ => .inl rfl⟩, fun t _ => Nat.zero_le _⟩
    rw [zero_mul]
    rfl
  | append_singleton past x ih =>
    obtain ⟨hpast, -, hx⟩ := List.pairwise_append.1 hmono
    obtain ⟨m, hinv, hm⟩ := ih hpast
    rw [after, List.foldl_concat]
    refine ⟨_, hinv.onSample (hm x.now fun y hy => hx y hy x (by simp)), fun t ht => ?_⟩
    exact Nat.div_le_div_right (Nat.sub_le_sub_right (ht x (by simp)) _)

/-- The delay that `on_sample` answers a sample with is what it exceeds the least sample of the last
thirteen minutes by, itself among them, however long ago the sample before it was. -/
theorem onSample_least (creation : Nat) (past : List Sample) (x : Sample)
    (hmono : (past ++ [x]).Pairwise (·.now ≤ ·.now)) (hfits : x.delayUs ≤ u32Max) :
    ∃ least, IsLeast (Sample.delayUs '' window creation x.now (past ++ [x])) least ∧
      (((new creation).after past).onSample x).2 = x.delayUs - least := by
  obtain ⟨hpast, -, hx⟩ := List.pairwise_append.1 hmono
  obtain ⟨m, hinv, hm⟩ := after_inv creation hpast
  simp only [onSample]
  exact (hinv.onSample (hm x.now fun y hy => hx y hy x (by simp))).queuingDelay (by simp) hfits

/-- A minute after 80, a sample of 90 is 10 above the least; thirteen minutes later it is the least. -/
theorem onSample_least_aged : ∃ least,
    IsLeast (Sample.delayUs '' window 0 (14 * baseDelayBucket)
      ([⟨80, 0⟩, ⟨90, baseDelayBucket⟩] ++ [⟨90, 14 * baseDelayBucket⟩])) least ∧
      (((new 0).after [⟨80, 0⟩, ⟨90, baseDelayBucket⟩]).onSample ⟨90, 14 * baseDelayBucket⟩).2 =
        90 - least :=
  onSample_least 0 _ _ (by decide) (by decide)

end DelayHist

end BitRev.Utp
