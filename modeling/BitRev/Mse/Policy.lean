import Mathlib

/-!
# Encryption policies

`EncryptionPolicy` and `CryptoMethod` (`mse/mod.rs`), and the two kinds of incoming streams that a
policy tells apart (`IncomingKind`, `transport/mod.rs`).
-/

namespace BitRev

def cryptoPlaintext : BitVec 32 := 0x01
def cryptoRc4 : BitVec 32 := 0x02

inductive CryptoMethod where
  | plaintext
  | rc4
  deriving DecidableEq

namespace CryptoMethod

def asU32 : CryptoMethod → BitVec 32
  | .plaintext => cryptoPlaintext
  | .rc4 => cryptoRc4

end CryptoMethod

inductive EncryptionPolicy where
  | disabled
  | preferPlaintext
  | preferEncrypted
  | requireEncrypted
  deriving DecidableEq

namespace EncryptionPolicy

/-- What a responder chooses from what the initiator provides. -/
def select (p : EncryptionPolicy) (provided : BitVec 32) : Option CryptoMethod :=
  let plain : Bool := provided &&& cryptoPlaintext ≠ 0
  let rc4 : Bool := provided &&& cryptoRc4 ≠ 0
  match p with
  | .disabled => none
  | .requireEncrypted => if rc4 then some .rc4 else none
  | .preferEncrypted => if rc4 then some .rc4 else if plain then some .plaintext else none
  | .preferPlaintext => if plain then some .plaintext else if rc4 then some .rc4 else none

def allowsPlaintext : EncryptionPolicy → Bool
  | .requireEncrypted => false
  | _ => true

def allowsMse : EncryptionPolicy → Bool
  | .disabled => false
  | _ => true

end EncryptionPolicy

/-- What an incoming stream starts with: a BitTorrent handshake in clear, or something else. -/
inductive IncomingKind where
  | plaintext
  | maybeEncrypted

end BitRev
