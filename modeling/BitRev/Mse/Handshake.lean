import BitRev.Framework.Dialog
import BitRev.Mse.Policy
import BitRev.Mse.Stream

/-!
# The MSE handshake

`mse/handshake.rs`: the two sides of the handshake as programs over the byte stream of a
connection. What they draw at random (the keys and the paddings) is given to them; deriving the
shared secret, which is arithmetic on big numbers, is part of the keys. Flushes have no effect
here. An I/O error or the timeout can end a handshake at any time (`MseError.io`, `timeout`); the
programs only raise the former, at the end of the stream.
-/

namespace BitRev

def maxPad : Nat := 512
def vcLen : Nat := 8
def maxIa : Nat := 65535
def publicKeyLen : Nat := 96
def initiatorSyncMax : Nat := maxPad + vcLen
def responderSyncMax : Nat := maxPad + 20

def Mse.vc : Bytes := List.replicate vcLen 0

open Mse

/-- `BT_HANDSHAKE_HEAD`: the first bytes of a BitTorrent handshake. -/
def btHandshakeHead : Bytes := 19 :: ascii "BitTorrent protocol"

inductive MseError where
  | timeout
  | io
  | syncNotFound
  | unknownTorrent
  | cryptoNegotiation
  | invalidVc
  | paddingTooLarge (len : Nat)
  | initialPayloadTooLarge (len : Nat)
  | plaintextNotAllowed
  | plaintextPeer

structure DhKeys where
  publicKey : Bytes
  /-- The secret with the public key of the other side. -/
  sharedSecret : Bytes → Bytes
  length_publicKey : publicKey.length = publicKeyLen

/-- What `random_pad` draws. -/
structure Pad where
  bytes : Bytes
  length_le : bytes.length ≤ maxPad

structure HandshakeOutcome where
  stream : EncryptedStream
  selected : CryptoMethod
  skey : Digest

/-! ## Reading -/

def findSlice (haystack needle : Bytes) : Option Nat :=
  if needle = [] ∨ haystack.length < needle.length then none
  else
    (List.range (haystack.length - needle.length + 1)).find? fun pos =>
      (haystack.drop pos).take needle.length = needle

/-- The loop of `read_until`: `buf` is what it keeps of the `readTotal` bytes that were read. Each
round reads a byte at least, so `fuel` rounds are enough if `readTotal + fuel` is `max`. -/
def syncFrom (pattern : Bytes) (max : Nat) :
    (fuel readTotal : Nat) → Bytes → Dialog MseError Bytes
  | 0, _, _ => .throw .syncNotFound
  | fuel + 1, readTotal, buf =>
    if max ≤ readTotal then .throw .syncNotFound
    else do
      let chunk ← .read (min (max - readTotal) 64)
      if chunk = [] then .throw .io
      else
        let buf := buf ++ chunk
        match findSlice buf pattern with
        | some pos => pure (buf.drop (pos + pattern.length))
        | none =>
          let keep := pattern.length - 1
          syncFrom pattern max fuel (readTotal + chunk.length)
            (if pattern.length < buf.length then buf.drop (buf.length - keep) else buf)

/-- `read_until`: the bytes that were read after the pattern. -/
def readUntil (pattern : Bytes) (max : Nat) : Dialog MseError Bytes :=
  syncFrom pattern max max 0 []

/-- Read `n` bytes after the bytes `pre` and decrypt them; also returns the bytes that are left and
the cipher. -/
def readDec (pre : Bytes) (dec : Rc4) (n : Nat) : Dialog MseError (Bytes × Bytes × Rc4) := do
  let (buf, pre) ← .readExactAfter .io pre n
  pure (dec.crypt buf, pre, dec.skip n)

def readU32Dec (pre : Bytes) (dec : Rc4) : Dialog MseError (BitVec 32 × Bytes × Rc4) := do
  let (buf, rest) ← readDec pre dec 4
  pure (BitVec.ofNat 32 (beToNat buf), rest)

def readU16Dec (pre : Bytes) (dec : Rc4) : Dialog MseError (Nat × Bytes × Rc4) := do
  let (buf, rest) ← readDec pre dec 2
  pure (beToNat buf, rest)

/-- The loop of `skip_dec`; at most `fuel` rounds. -/
def skipFrom : (fuel remaining : Nat) → Bytes → Rc4 → Dialog MseError (Bytes × Rc4)
  | 0, _, pre, dec => pure (pre, dec)
  | fuel + 1, remaining, pre, dec =>
    if remaining = 0 then pure (pre, dec)
    else do
      let n := min remaining 64
      let (_, pre, dec) ← readDec pre dec n
      skipFrom fuel (remaining - n) pre dec

def skipDec (pre : Bytes) (dec : Rc4) (len : Nat) : Dialog MseError (Bytes × Rc4) :=
  skipFrom len len pre dec

/-! ## The two sides -/

def finishStream (selected : CryptoMethod) (enc dec : Rc4) (unread : Bytes) : EncryptedStream :=
  match selected with
  | .rc4 => { enc := some enc, dec := some dec, unread }
  | .plaintext => { enc := none, dec := none, unread }

def methodFromSelect (cryptoSelect provide : BitVec 32) (allowPlaintext : Bool) :
    Except MseError CryptoMethod :=
  let chosen := cryptoSelect &&& provide
  if chosen = cryptoRc4 then .ok .rc4
  else if chosen = cryptoPlaintext then
    if allowPlaintext then .ok .plaintext else .error .plaintextNotAllowed
  else .error .cryptoNegotiation

/-- What the initiator encrypts. -/
def Mse.offer (provide : BitVec 32) (padC : Pad) (ia : Bytes) : Bytes :=
  vc ++ toBe 4 provide.toNat ++ toBe 2 padC.bytes.length ++ padC.bytes ++ toBe 2 ia.length ++ ia

/-- What the responder encrypts. -/
def Mse.answer (selected : CryptoMethod) (padD : Pad) : Bytes :=
  vc ++ toBe 4 selected.asU32.toNat ++ toBe 2 padD.bytes.length ++ padD.bytes

section

variable (sha1 : Bytes → Digest)

/-- The third message of the handshake. -/
def Mse.step3 (s : Bytes) (skey : Digest) (provide : BitVec 32) (padC : Pad) (ia : Bytes) : Bytes :=
  hashReq1 sha1 s ++ xor20 (hashReq2 sha1 skey) (hashReq3 sha1 s) ++
    (Rc4.forMse (keyA sha1 s skey)).crypt (offer provide padC ia)

/-- The rest of `initiate_inner`, once the secret is known. -/
def initiateWith (s : Bytes) (padC : Pad) (skey : Digest) (provide : BitVec 32) (ia : Bytes)
    (allowPlaintext : Bool) : Dialog MseError HandshakeOutcome := do
  let enc := Rc4.forMse (keyA sha1 s skey)
  let dec := Rc4.forMse (keyB sha1 s skey)
  .write (step3 sha1 s skey provide padC ia)
  let leftover ← readUntil (dec.crypt vc) initiatorSyncMax
  let (cryptoSelect, pre, dec) ← readU32Dec leftover (dec.skip vcLen)
  let (padDLen, pre, dec) ← readU16Dec pre dec
  if maxPad < padDLen then .throw (.paddingTooLarge padDLen)
  else do
    let (pre, dec) ← skipDec pre dec padDLen
    match methodFromSelect cryptoSelect provide allowPlaintext with
    | .error e => .throw e
    | .ok selected =>
      let enc := enc.skip (offer provide padC ia).length
      pure { stream := finishStream selected enc dec pre, selected, skey }

def initiateInner (keys : DhKeys) (padA padC : Pad) (skey : Digest) (provide : BitVec 32)
    (ia : Bytes) (allowPlaintext : Bool) : Dialog MseError HandshakeOutcome :=
  if maxIa < ia.length then .throw (.initialPayloadTooLarge (ia.length % 2 ^ 16))
  else if provide &&& (cryptoPlaintext ||| cryptoRc4) = 0 then .throw .cryptoNegotiation
  else do
    .write keys.publicKey
    .write padA.bytes
    let head ← .readExact .io btHandshakeHead.length
    if head = btHandshakeHead then .throw .plaintextPeer
    else do
      let tail ← .readExact .io (publicKeyLen - btHandshakeHead.length)
      initiateWith sha1 (keys.sharedSecret (head ++ tail)) padC skey provide ia allowPlaintext

/-- The end of `respond_inner`: the answer to what the initiator provides. -/
def respondTo (enc dec : Rc4) (padD : Pad) (skey : Digest) (provide : BitVec 32) (ia pre : Bytes)
    (select : BitVec 32 → Option CryptoMethod) : Dialog MseError HandshakeOutcome :=
  match select provide with
  | none => .throw .cryptoNegotiation
  | some selected =>
    if selected = .plaintext ∧ provide &&& cryptoPlaintext = 0 then .throw .cryptoNegotiation
    else if selected = .rc4 ∧ provide &&& cryptoRc4 = 0 then .throw .cryptoNegotiation
    else do
      .write (enc.crypt (answer selected padD))
      let enc := enc.skip (answer selected padD).length
      pure { stream := finishStream selected enc dec (ia ++ pre), selected, skey }

/-- The part of `respond_inner` that reads what is encrypted for the torrent `skey`. -/
def respondWith (s : Bytes) (padD : Pad) (skey : Digest) (pre : Bytes)
    (select : BitVec 32 → Option CryptoMethod) : Dialog MseError HandshakeOutcome := do
  let dec := Rc4.forMse (keyA sha1 s skey)
  let enc := Rc4.forMse (keyB sha1 s skey)
  let (check, pre, dec) ← readDec pre dec vcLen
  if check ≠ vc then .throw .invalidVc
  else do
    let (provide, pre, dec) ← readU32Dec pre dec
    let (padCLen, pre, dec) ← readU16Dec pre dec
    if maxPad < padCLen then .throw (.paddingTooLarge padCLen)
    else do
      let (pre, dec) ← skipDec pre dec padCLen
      let (iaLen, pre, dec) ← readU16Dec pre dec
      if maxIa < iaLen then .throw (.initialPayloadTooLarge iaLen)
      else do
        let (ia, pre, dec) ← readDec pre dec iaLen
        respondTo enc dec padD skey provide ia pre select

def respondInner (keys : DhKeys) (padB padD : Pad) (lookup : Bytes → Option Digest)
    (select : BitVec 32 → Option CryptoMethod) : Dialog MseError HandshakeOutcome := do
  let ya ← .readExact .io publicKeyLen
  let s := keys.sharedSecret ya
  .write keys.publicKey
  .write padB.bytes
  let leftover ← readUntil (hashReq1 sha1 s) responderSyncMax
  let (req2Xor, pre) ← .readExactAfter .io leftover 20
  match lookup (xor20 req2Xor (hashReq3 sha1 s)) with
  | none => .throw .unknownTorrent
  | some skey => respondWith sha1 s padD skey pre select

end

end BitRev
