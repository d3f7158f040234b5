import BitRev.Framework.StreamCipher
import BitRev.Metainfo.File

/-!
# RC4 and the hashes of MSE

`mse/rc4.rs` and `mse/hash.rs`. The table of 256 bytes of a cipher is a bit vector, a byte after
the other. SHA-1 is a parameter.
-/

namespace BitRev

/-- A table `[u8; 256]`. -/
abbrev ByteTable := BitVec 2048

namespace ByteTable

def get (s : ByteTable) (i : UInt8) : UInt8 := ⟨s.extractLsb' (8 * i.toNat) 8⟩

def set (s : ByteTable) (i x : UInt8) : ByteTable :=
  s ^^^ ((s.get i ^^^ x).toBitVec.setWidth 2048 <<< (8 * i.toNat))

def swap (s : ByteTable) (i j : UInt8) : ByteTable := (s.set i (s.get j)).set j (s.get i)

end ByteTable

structure Rc4 where
  s : ByteTable
  i : UInt8
  j : UInt8

namespace Rc4

/-- The loop of `new` that mixes the key into the table; `n` rounds are left. -/
def schedule (key : Bytes) : Nat → Nat → ByteTable → UInt8 → ByteTable
  | 0, _, s, _ => s
  | n + 1, i, s, j =>
    let j := j + s.get (UInt8.ofNat i) + key.getD (i % key.length) 0
    schedule key n (i + 1) (s.swap (UInt8.ofNat i) j) j

def new (key : Bytes) : Rc4 :=
  let s := (List.range 256).foldl (fun s i => ByteTable.set s (UInt8.ofNat i) (UInt8.ofNat i)) 0
  { s := schedule key 256 0 s 0, i := 0, j := 0 }

/-- The next byte of the keystream. -/
def next (c : Rc4) : UInt8 × Rc4 :=
  let i := c.i + 1
  let j := c.j + c.s.get i
  let s := c.s.swap i j
  (s.get (s.get i + s.get j), ⟨s, i, j⟩)

/-- `discard`, and the state that `apply` leaves. -/
abbrev skip (c : Rc4) (n : Nat) : Rc4 := StreamCipher.skip next c n

/-- What `apply` makes of a buffer. -/
abbrev crypt (c : Rc4) (buf : Bytes) : Bytes := StreamCipher.crypt next c buf

@[irreducible] def forMse (key : Bytes) : Rc4 := (new key).skip 1024

-- the test vector of the source
example : (new (ascii "Key")).crypt (ascii "Plaintext") =
    [0xBB, 0xF3, 0x16, 0xE8, 0xD9, 0x40, 0xAF, 0x0A, 0xD3] := by decide +kernel

end Rc4

/-! ## Hashes -/

section

variable (sha1 : Bytes → Digest)

def hashReq1 (s : Bytes) : Bytes := (sha1 (ascii "req1" ++ s)).toBytes
def hashReq2 (skey : Digest) : Bytes := (sha1 (ascii "req2" ++ skey.toBytes)).toBytes
def hashReq3 (s : Bytes) : Bytes := (sha1 (ascii "req3" ++ s)).toBytes
def keyA (s : Bytes) (skey : Digest) : Bytes :=
  (sha1 (ascii "keyA" ++ s ++ skey.toBytes)).toBytes
def keyB (s : Bytes) (skey : Digest) : Bytes :=
  (sha1 (ascii "keyB" ++ s ++ skey.toBytes)).toBytes

/-- `lookup_skey`: the first of the keys that has the hash. -/
def lookupSkey (keys : List Digest) (req2 : Bytes) : Option Digest :=
  keys.find? fun skey => hashReq2 sha1 skey = req2

end

def xor20 (a b : Bytes) : Bytes := List.zipWith (· ^^^ ·) a b

@[simp] lemma Digest.length_toBytes (d : Digest) : d.toBytes.length = 20 := length_toBe 20 _

section

variable (sha1 : Bytes → Digest)

lemma length_hashReq1 (s : Bytes) : (hashReq1 sha1 s).length = 20 :=
  Digest.length_toBytes _

lemma length_hashReq2 (skey : Digest) : (hashReq2 sha1 skey).length = 20 :=
  Digest.length_toBytes _

lemma length_hashReq3 (s : Bytes) : (hashReq3 sha1 s).length = 20 :=
  Digest.length_toBytes _

end

lemma length_xor20 {a b : Bytes} (ha : a.length = 20) (hb : b.length = 20) :
    (xor20 a b).length = 20 := by
  simp [xor20, ha, hb]

lemma xor20_xor20 {a b : Bytes} (h : a.length = b.length) : xor20 (xor20 a b) b = a := by
  induction a generalizing b with
  | nil => rfl
  | cons x a ih =>
    cases b with
    | nil => simp at h
    | cons y b =>
      have hrest := ih (b := b) (by simpa using h)
      simp only [xor20, List.zipWith_cons_cons] at hrest ⊢
      rw [hrest, UInt8.xor_assoc, UInt8.xor_self, UInt8.xor_zero]

end BitRev
