import Mathlib

/-!
# Prefixes of bit vectors

`Agree p a b`: the first `p` bits of `a` and `b`, from the top, are the same. A pair of a vector and
a length stands for the range of vectors that agree with it so far; splitting a range by its next
bit (`agree_succ`) gives two ranges, each vector of the first being in one of them.
-/

namespace BitRev

variable {w p q : Nat} {a b c : BitVec w}

def Agree (p : Nat) (a b : BitVec w) : Prop := ∀ i < p, a.getMsbD i = b.getMsbD i

lemma Agree.refl (p : Nat) (a : BitVec w) : Agree p a a := fun _ _ => rfl

lemma Agree.symm (h : Agree p a b) : Agree p b a := fun i hi => (h i hi).symm

lemma Agree.trans (h : Agree p a b) (h' : Agree p b c) : Agree p a c :=
  fun i hi => (h i hi).trans (h' i hi)

lemma Agree.mono (h : Agree p a b) (hq : q ≤ p) : Agree q a b :=
  fun i hi => h i (lt_of_lt_of_le hi hq)

lemma agree_zero (a b : BitVec w) : Agree 0 a b := fun _ hi => absurd hi (Nat.not_lt_zero _)

lemma agree_succ : Agree (p + 1) a b ↔ Agree p a b ∧ a.getMsbD p = b.getMsbD p := by
  refine ⟨fun h => ⟨h.mono (Nat.le_succ p), h p (Nat.lt_succ_self p)⟩, fun h i hi => ?_⟩
  rcases Nat.lt_succ_iff_lt_or_eq.1 hi with hlt | rfl
  · exact h.1 i hlt
  · exact h.2

/-- Agreement as a bound on the distance. -/
lemma agree_iff_xor_lt (hp : p ≤ w) : Agree p a b ↔ (a ^^^ b).toNat < 2 ^ (w - p) := by
  constructor
  · intro h
    refine Nat.lt_pow_two_of_testBit _ fun i hi => ?_
    rcases lt_or_ge i w with hlt | hge
    · have hbit := h (w - 1 - i) (by omega)
      rw [BitVec.getMsbD_eq_getLsbD, BitVec.getMsbD_eq_getLsbD] at hbit
      have hi' : w - 1 - (w - 1 - i) = i := by omega
      have hlt' : w - 1 - i < w := by omega
      simp only [hi', hlt', decide_true, Bool.true_and] at hbit
      rw [BitVec.testBit_toNat, BitVec.getLsbD_xor, hbit, Bool.xor_self]
    · rw [BitVec.testBit_toNat]
      exact BitVec.getLsbD_of_ge _ _ hge
  · intro h i hi
    have hlt : i < w := by omega
    have hzero : (a ^^^ b).getLsbD (w - 1 - i) = false := by
      rw [← BitVec.testBit_toNat]
      exact Nat.testBit_lt_two_pow (lt_of_lt_of_le h (Nat.pow_le_pow_right (by decide) (by omega)))
    rw [BitVec.getLsbD_xor] at hzero
    rw [BitVec.getMsbD_eq_getLsbD, BitVec.getMsbD_eq_getLsbD]
    simpa [hlt] using hzero

end BitRev
