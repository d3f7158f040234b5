import BitRev.Framework.Bytes

/-!
# Stream ciphers

A cipher whose state gives one byte of the keystream after the other (`next`) and is applied by
xor. `crypt next c bs` is `bs` under the keystream from the state `c` on, and `skip next c n` the
state `n` bytes later.

* `crypt_append`, `skip_add`: applying a cipher piece by piece is applying it at once.
* `crypt_crypt`: applied twice from the same state, it gives the text back.
-/

namespace BitRev.StreamCipher

variable {σ : Type} (next : σ → UInt8 × σ)

def skip (c : σ) : Nat → σ
  | 0 => c
  | n + 1 => skip (next c).2 n

def crypt (c : σ) : Bytes → Bytes
  | [] => []
  | b :: bs => (b ^^^ (next c).1) :: crypt (next c).2 bs

variable {next} {c : σ} (bs : Bytes)

@[simp] lemma length_crypt : (crypt next c bs).length = bs.length := by
  induction bs generalizing c with
  | nil => rfl
  | cons b bs ih => simp [crypt, ih]

lemma skip_add (m n : Nat) : skip next c (m + n) = skip next (skip next c m) n := by
  induction m generalizing c with
  | zero => simp [skip]
  | succ m ih => rw [add_right_comm, skip, skip, ih]

lemma crypt_append (as bs : Bytes) :
    crypt next c (as ++ bs) = crypt next c as ++ crypt next (skip next c as.length) bs := by
  induction as generalizing c with
  | nil => rfl
  | cons a as ih => simp [crypt, skip, ih]

lemma crypt_crypt : crypt next c (crypt next c bs) = bs := by
  induction bs generalizing c with
  | nil => rfl
  | cons b bs ih => simp [crypt, ih]

/-- What a piece of a ciphertext decrypts to. -/
lemma crypt_drop (n : Nat) : (crypt next c bs).drop n = crypt next (skip next c n) (bs.drop n) := by
  induction bs generalizing c n with
  | nil => simp [crypt]
  | cons b bs ih =>
    cases n with
    | zero => rfl
    | succ n => simpa [crypt, skip] using ih n

lemma crypt_take (n : Nat) : (crypt next c bs).take n = crypt next c (bs.take n) := by
  induction bs generalizing c n with
  | nil => simp [crypt]
  | cons b bs ih =>
    cases n with
    | zero => rfl
    | succ n => simpa [crypt] using ih n

end BitRev.StreamCipher
