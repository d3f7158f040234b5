import Mathlib

/-!
# Byte strings

Texts and buffers are lists of bytes; a text is its UTF-8 encoding. `ascii` writes an ASCII text,
`digitsToNat` reads decimal digits, `beToNat` reads a byte string as a big-endian number and `toBe`
writes one.
-/

namespace BitRev

/-- A byte string, or the UTF-8 encoding of a text. -/
abbrev Bytes := List UInt8

def ascii (s : String) : Bytes := s.toList.map fun c => c.toNat.toUInt8

/-- The code of an ASCII character. -/
def chr (c : Char) : UInt8 := c.toNat.toUInt8

def isAsciiDigit (b : UInt8) : Bool := chr '0' ≤ b && b ≤ chr '9'

def toAsciiLowercase (b : UInt8) : UInt8 := if chr 'A' ≤ b && b ≤ chr 'Z' then b + 32 else b

def toAsciiUppercase (b : UInt8) : UInt8 := if chr 'a' ≤ b && b ≤ chr 'z' then b - 32 else b

/-- The number written in decimal by `ds`. -/
def digitsToNat (ds : Bytes) : Nat := ds.foldl (fun n d => n * 10 + (d.toNat - 48)) 0

/-- The big-endian number of `bs`. -/
def beToNat (bs : Bytes) : Nat := bs.foldl (fun n b => n * 256 + b.toNat) 0

/-- The big-endian `n`-byte encoding of `x`. -/
def toBe (n x : Nat) : Bytes := (List.range n).map fun k => (x / 256 ^ (n - 1 - k)).toUInt8

/-- `bs` with the first occurrence of `b` as a separator, as in `split_once`. -/
def splitOnce (b : UInt8) (bs : Bytes) : Option (Bytes × Bytes) :=
  match bs.span (· ≠ b) with
  | (_, []) => none
  | (l, _ :: r) => some (l, r)

/-- What follows `p` in `bs`, as in `strip_prefix`. -/
def stripPrefixOf (p bs : Bytes) : Option Bytes :=
  if p.isPrefixOf bs then some (bs.drop p.length) else none

lemma length_toBe (n x : Nat) : (toBe n x).length = n := by simp [toBe]

lemma beToNat_append (bs : Bytes) (b : UInt8) :
    beToNat (bs ++ [b]) = beToNat bs * 256 + b.toNat := by
  simp [beToNat]

lemma toBe_succ (n x : Nat) : toBe (n + 1) x = toBe n (x / 256) ++ [x.toUInt8] := by
  unfold toBe
  rw [List.range_succ, List.map_append]
  congr 1
  · refine List.map_congr_left fun k hk => ?_
    have hlt := List.mem_range.1 hk
    rw [show n + 1 - 1 - k = (n - 1 - k) + 1 by omega, Nat.pow_succ', Nat.div_div_eq_div_mul]
  · simp

lemma beToNat_toBe {n x : Nat} (h : x < 256 ^ n) : beToNat (toBe n x) = x := by
  induction n generalizing x with
  | zero =>
    obtain rfl : x = 0 := by simpa using h
    rfl
  | succ n ih =>
    have hdiv : x / 256 < 256 ^ n := Nat.div_lt_of_lt_mul (by rwa [← Nat.pow_succ'])
    rw [toBe_succ, beToNat_append, ih hdiv]
    have : x.toUInt8.toNat = x % 256 := rfl
    omega

lemma beToNat_lt (bs : Bytes) : beToNat bs < 256 ^ bs.length := by
  induction bs using List.reverseRecOn with
  | nil => exact one_pos
  | append_singleton bs b ih =>
    have hb := b.toNat_lt
    rw [beToNat_append, List.length_append, List.length_singleton, Nat.pow_succ]
    omega

lemma toBe_beToNat (bs : Bytes) : toBe bs.length (beToNat bs) = bs := by
  induction bs using List.reverseRecOn with
  | nil => rfl
  | append_singleton bs b ih =>
    have hb := b.toNat_lt
    have hlast : (beToNat bs * 256 + b.toNat).toUInt8 = b := by
      rw [← UInt8.toNat_inj, Nat.toUInt8, UInt8.toNat_ofNat']
      omega
    rw [List.length_append, List.length_singleton, toBe_succ, beToNat_append, hlast,
      show (beToNat bs * 256 + b.toNat) / 256 = beToNat bs by omega, ih]

/-- The field at an offset, and what follows it. -/
lemma drop_field {bs l r : Bytes} {i n : Nat} (h : bs.drop i = l ++ r) (hn : l.length = n) :
    (bs.drop i).take n = l ∧ bs.drop (i + n) = r := by
  subst hn
  rw [← List.drop_drop, h]
  exact ⟨List.take_left, List.drop_left⟩

end BitRev
