import BitRev.Framework.Run
import BitRev.Metainfo.File

/-!
# The allowed fast set

`generate_allowed_fast` (`allowed_fast.rs`). The `HashSet` beside the vector holds the vector's
elements. The `while` loop has fuel, since nothing says that SHA-1 ever gives enough values.
-/

namespace BitRev

open List

/-- What all sets of one torrent share. -/
structure AllowedFast where
  sha1 : Bytes → Digest
  infoHash : Digest
  pieceCount : Nat

namespace AllowedFast

variable (q : AllowedFast)

/-- The index that word `i` of a digest gives. -/
def index (digest : Digest) (i : Nat) : Nat :=
  beToNat ((digest.toBytes.drop (i * 4)).take 4) % q.pieceCount

def push (target : Nat) (l : List Nat) (index : Nat) : List Nat :=
  if l.length ≥ target ∨ index ∈ l then l else l ++ [index]

def loop (target : Nat) : Nat → Bytes → List Nat → Option (List Nat)
  | 0, _, _ => none
  | fuel + 1, x, l =>
    if l.length < target then
      let digest := q.sha1 x
      loop target fuel digest.toBytes
        ((range 5).foldl (fun l i => push target l (q.index digest i)) l)
    else some l

/-- The address without its last octet, and the info hash. -/
def seed (ip : BitVec 32) : Bytes := (toBe 4 ip.toNat).set 3 0 ++ q.infoHash.toBytes

def generateAllowedFast (ip : BitVec 32) (k fuel : Nat) : Option (List Nat) :=
  if q.pieceCount = 0 ∨ k = 0 then some [] else q.loop (min k q.pieceCount) fuel (q.seed ip) []

/-- What is hashed in round `i`. -/
def input (ip : BitVec 32) (i : Nat) : Bytes := (fun x => (q.sha1 x).toBytes)^[i] (q.seed ip)

/-- The infinite sequence, five words of each digest. -/
def sequence (ip : BitVec 32) (n : Nat) : Nat := q.index (q.sha1 (q.input ip (n / 5))) (n % 5)

/-- The distinct values among the first `n` of a sequence, in order of first occurrence. -/
def distinct (u : Nat → Nat) (n : Nat) : List Nat := ((range n).map u).eraseDups

/-- `r` are the first `target` distinct values. -/
def Firsts (u : Nat → Nat) (target : Nat) (r : List Nat) : Prop :=
  ∃ n, r = (distinct u n).take target ∧ r.length = target

variable {q} {u : Nat → Nat} {ip : BitVec 32} {m n target k fuel : Nat} {r : List Nat}

lemma take_distinct (l : Nat) (h : target ≤ (distinct u n).length) :
    (distinct u (n + l)).take target = (distinct u n).take target := by
  rw [distinct, range_add, map_append, eraseDups_append]
  exact take_append_of_le_length h

lemma push_distinct :
    push target ((distinct u n).take target) (u n) = (distinct u (n + 1)).take target := by
  rw [push, length_take]
  by_cases hlt : (distinct u n).length < target
  · rw [take_of_length_le hlt.le, min_eq_right hlt.le]
    have hsucc : distinct u (n + 1) =
        distinct u n ++ ([u n].removeAll ((range n).map u)).eraseDups := by
      rw [distinct, range_succ, map_append, eraseDups_append]
      rfl
    by_cases hmem : u n ∈ distinct u n
    · have hnone : [u n].removeAll ((range n).map u) = [] := by
        simpa [removeAll, distinct] using hmem
      rw [hsucc, hnone, if_pos (.inr hmem)]
      simp [hlt.le]
    · have hone : [u n].removeAll ((range n).map u) = [u n] := by
        simpa [removeAll, distinct] using hmem
      have hlen : (distinct u n ++ [u n]).length ≤ target := by simpa using hlt
      rw [hsucc, hone, if_neg (by simp [hmem, hlt])]
      exact (take_of_length_le hlen).symm
  · rw [if_pos (.inl (by omega)), take_distinct 1 (Nat.not_lt.1 hlt)]

/-- A turn of the loop adds the next five values. -/
lemma loop_succ (fuel i : Nat) :
    q.loop target (fuel + 1) (q.input ip i) ((distinct (q.sequence ip) (5 * i)).take target) =
      if ((distinct (q.sequence ip) (5 * i)).take target).length < target then
        q.loop target fuel (q.input ip (i + 1))
          ((distinct (q.sequence ip) (5 * (i + 1))).take target)
      else some ((distinct (q.sequence ip) (5 * i)).take target) := by
  have hround (w : Nat) (hw : w ≤ 5) : (range w).foldl
      (fun l j => push target l (q.index (q.sha1 (q.input ip i)) j))
      ((distinct (q.sequence ip) (5 * i)).take target) =
        (distinct (q.sequence ip) (5 * i + w)).take target := by
    induction w with
    | zero => rfl
    | succ w ihw =>
      rw [range_succ, foldl_append, ihw (by omega), ← add_assoc, ← push_distinct, sequence,
        show (5 * i + w) / 5 = i by omega, show (5 * i + w) % 5 = w by omega]
      rfl
  have hnext : (q.sha1 (q.input ip i)).toBytes = q.input ip (i + 1) := by
    rw [input, input, Function.iterate_succ_apply']
  rw [loop]
  dsimp only
  rw [hround 5 le_rfl, hnext]
  rfl

lemma loop_firsts (fuel i : Nat) (hr : q.loop target fuel (q.input ip i)
      ((distinct (q.sequence ip) (5 * i)).take target) = some r) :
    Firsts (q.sequence ip) target r := by
  induction fuel generalizing i with
  | zero => cases hr
  | succ fuel ih =>
    rw [loop_succ] at hr
    split at hr
    · exact ih (i + 1) hr
    · rename_i hlen
      cases hr
      exact ⟨_, rfl, (length_take_le ..).antisymm (Nat.not_lt.1 hlen)⟩

/-- The loop has ended when it has gone through the first `n` values, if these are enough. -/
lemma loop_ends (hn : target ≤ (distinct (q.sequence ip) n).length) (fuel i : Nat) (hi : i ≤ n)
    (hfuel : n < i + fuel) : (q.loop target fuel (q.input ip i)
      ((distinct (q.sequence ip) (5 * i)).take target)).isSome := by
  induction fuel generalizing i with
  | zero => omega
  | succ fuel ih =>
    rw [loop_succ]
    split
    · rename_i hlt
      refine ih (i + 1) ?_ (by omega)
      by_contra hge
      have hsame := take_distinct (5 * i - n) hn
      rw [show n + (5 * i - n) = 5 * i by omega] at hsame
      rw [hsame, length_take] at hlt
      omega
    · rfl

lemma generateAllowedFast_firsts (h : q.generateAllowedFast ip k fuel = some r) :
    Firsts (q.sequence ip) (min k q.pieceCount) r := by
  unfold generateAllowedFast at h
  split at h
  · cases h
    exact ⟨0, take_nil.symm, by rw [length_nil]; omega⟩
  · refine loop_firsts fuel 0 ?_
    rwa [show distinct (q.sequence ip) (5 * 0) = [] from rfl, take_nil]

/-- What is returned are the first distinct values of the sequence, a prefix of what a larger `k`
gives, and the same for all addresses of one /24; and if the sequence has enough distinct values,
something is returned. -/
theorem generateAllowedFast_distinct (h : q.generateAllowedFast ip k fuel = some r) :
    Firsts (q.sequence ip) (min k q.pieceCount) r ∧
      (∀ k' fuel' r', k ≤ k' → q.generateAllowedFast ip k' fuel' = some r' → r <+: r') ∧
      (∀ ip' : BitVec 32, ip' >>> 8 = ip >>> 8 → q.generateAllowedFast ip' k fuel = some r) ∧
      ∀ ip' k' n, min k' q.pieceCount ≤ (distinct (q.sequence ip') n).length →
        (q.generateAllowedFast ip' k' (n + 1)).isSome := by
  refine ⟨generateAllowedFast_firsts h, fun k' fuel' r' hk h' => ?_, fun ip' hip => ?_,
    fun ip' k' n hn => ?_⟩
  · obtain ⟨n, rfl, hn⟩ := generateAllowedFast_firsts h
    obtain ⟨n', rfl, hn'⟩ := generateAllowedFast_firsts h'
    rw [length_take] at hn hn'
    rw [← take_distinct n' (by omega), ← take_distinct (n := n') n (by omega), Nat.add_comm n']
    exact take_prefix_take_left (by omega)
  · have hnet : ip'.toNat / 256 = ip.toNat / 256 := by
      simpa [Nat.shiftRight_eq_div_pow] using congrArg BitVec.toNat hip
    have hseed : q.seed ip' = q.seed ip := by
      simp only [seed, toBe_succ, hnet]
      rfl
    rw [generateAllowedFast, hseed]
    exact h
  · unfold generateAllowedFast
    split
    · rfl
    · have hends := loop_ends hn (n + 1) 0 (Nat.zero_le n) (by omega)
      rwa [show distinct (q.sequence ip') (5 * 0) = [] from rfl, take_nil] at hends

/-- A hash whose last word alone is not zero. -/
def lastWord : AllowedFast := ⟨fun _ => 1, 0, 3⟩

theorem generateAllowedFast_distinct_two :
    lastWord.generateAllowedFast 0x0a000001 2 2 = some [0, 1] ∧
      Firsts (lastWord.sequence 0x0a000001) 2 [0, 1] :=
  have h : lastWord.generateAllowedFast 0x0a000001 2 2 = some [0, 1] := by decide +kernel
  ⟨h, (generateAllowedFast_distinct h).1⟩

end AllowedFast

end BitRev
