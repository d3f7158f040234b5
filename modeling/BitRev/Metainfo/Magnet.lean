import BitRev.Framework.Utf8
import BitRev.Metainfo.File

/-!
# Magnet links

`magnet.rs`: `Magnet.parse` with percent-decoding and the two spellings of an info hash, and
`nameOrHash`, the name a magnet download is stored under. Parsing a peer address is a parameter.
`decodeBase32_iff`: the base32 spelling of a hash is one text up to letter case. The loop moves bits
from digits to bytes; the bytes written, the bits held and the digits to come are one number
throughout.
-/

namespace BitRev

inductive IpAddr where
  | v4 (addr : BitVec 32)
  | v6 (addr : BitVec 128)
  deriving DecidableEq

structure SocketAddr where
  ip : IpAddr
  port : UInt16
  deriving DecidableEq

/-- IPv4 addresses come before IPv6 ones; then by address and port. -/
def SocketAddr.rank (a : SocketAddr) : Nat :=
  match a.ip with
  | .v4 addr => addr.toNat * 2 ^ 16 + a.port.toNat
  | .v6 addr => 2 ^ 48 + addr.toNat * 2 ^ 16 + a.port.toNat

/-- A peer on this machine. -/
def localPeer (port : UInt16) : SocketAddr := ⟨.v4 0x7f000001, port⟩

structure Magnet where
  infoHash : Digest
  displayName : Option Bytes
  trackers : List Bytes
  peers : List SocketAddr
  webseeds : List Bytes

inductive MagnetError where
  | missingXt
  | v2NotSupported
  | badHashLength (got : Nat)
  | badHex
  | badBase32
  | invalidUri
  deriving DecidableEq

namespace Magnet

def fromHexDigit (b : UInt8) : Option UInt8 :=
  if chr '0' ≤ b ∧ b ≤ chr '9' then some (b - chr '0')
  else if chr 'a' ≤ b ∧ b ≤ chr 'f' then some (b - chr 'a' + 10)
  else if chr 'A' ≤ b ∧ b ≤ chr 'F' then some (b - chr 'A' + 10)
  else none

/-- The loop of `percent_decode`; a `%` that no two hex digits follow stays. -/
def percentDecodeBytes : Bytes → Bytes
  | b :: h :: l :: rest =>
    if b = chr '%' then
      match fromHexDigit h, fromHexDigit l with
      | some hi, some lo => (hi <<< 4 ||| lo) :: percentDecodeBytes rest
      | _, _ => b :: percentDecodeBytes (h :: l :: rest)
    else b :: percentDecodeBytes (h :: l :: rest)
  | b :: rest => b :: percentDecodeBytes rest
  | [] => []

def percentDecode (input : Bytes) : Bytes := Utf8.fromUtf8Lossy (percentDecodeBytes input)

/-- The loop of `decode_hex` over pairs of digits. -/
def decodeHexPairs : Bytes → Except MagnetError Bytes
  | h :: l :: rest =>
    match fromHexDigit h, fromHexDigit l with
    | some hi, some lo => (decodeHexPairs rest).map ((hi <<< 4 ||| lo) :: ·)
    | _, _ => .error .badHex
  | _ => .ok []

def decodeHex (input : Bytes) : Except MagnetError Digest :=
  if input.length ≠ 40 then .error (.badHashLength input.length)
  else (decodeHexPairs input).map .ofBytes

def base32Value (raw : UInt8) : Option Nat :=
  let up := toAsciiUppercase raw
  if chr 'A' ≤ up ∧ up ≤ chr 'Z' then some (up - chr 'A').toNat
  else if chr '2' ≤ up ∧ up ≤ chr '7' then some ((up - chr '2').toNat + 26)
  else none

/-- The loop of `decode_base32`: `acc` holds the `bits` bits read and not yet written. -/
def decodeBase32Loop : Nat → Nat → Bytes → Bytes → Except MagnetError Bytes
  | _, _, out, [] => if out.length ≠ 20 then .error .badBase32 else .ok out
  | acc, bits, out, raw :: rest =>
    match base32Value raw with
    | none => .error .badBase32
    | some val =>
      let acc := (acc * 32 + val) % 2 ^ 32
      let bits := bits + 5
      if bits ≥ 8 then
        let bits := bits - 8
        if out.length ≥ 20 then .error .badBase32
        else decodeBase32Loop (acc % 2 ^ bits) bits (out ++ [(acc / 2 ^ bits).toUInt8]) rest
      else decodeBase32Loop acc bits out rest

/-- RFC 4648 base32, case-insensitive, no padding. -/
def decodeBase32 (input : Bytes) : Except MagnetError Digest :=
  if input.length ≠ 32 then .error (.badHashLength input.length)
  else (decodeBase32Loop 0 0 [] input).map .ofBytes

def parseXt (value : Bytes) : Except MagnetError Digest :=
  let lower := value.map toAsciiLowercase
  match stripPrefixOf (ascii "urn:btmh:") lower with
  | some _ => .error .v2NotSupported
  | none =>
    match stripPrefixOf (ascii "urn:btih:") lower with
    | none => .error .missingXt
    | some hash =>
      if hash.length = 40 then decodeHex hash
      else if hash.length = 32 then decodeBase32 hash
      else .error (.badHashLength hash.length)

def stripMagnetPrefix (input : Bytes) : Option Bytes :=
  (stripPrefixOf (ascii "magnet:") input).map fun rest =>
    (stripPrefixOf (ascii "//") rest).getD rest

/-- What the loop of `parse` has collected. -/
structure Fields where
  infoHash : Option Digest := none
  sawV2 : Bool := false
  displayName : Option Bytes := none
  trackers : List Bytes := []
  peers : List SocketAddr := []
  webseeds : List Bytes := []

section Parse

variable (parsePeer : Bytes → Option SocketAddr)

def parsePair (f : Fields) (pair : Bytes) : Except MagnetError Fields :=
  if pair = [] then .ok f
  else
    let (rawKey, rawValue) := (splitOnce (chr '=') pair).getD (pair, [])
    let key := (percentDecode rawKey).map toAsciiLowercase
    let value := percentDecode rawValue
    if key = ascii "xt" then
      match parseXt value with
      | .ok hash => .ok { f with infoHash := f.infoHash.or (some hash) }
      | .error .v2NotSupported => .ok { f with sawV2 := true }
      | .error e => .error e
    else if key = ascii "dn" ∧ f.displayName = none ∧ value ≠ [] then
      .ok { f with displayName := some value }
    else if key = ascii "tr" ∧ value ≠ [] then .ok { f with trackers := f.trackers ++ [value] }
    else if key = ascii "x.pe" then .ok { f with peers := f.peers ++ (parsePeer value).toList }
    else if key = ascii "ws" ∧ value ≠ [] then .ok { f with webseeds := f.webseeds ++ [value] }
    else .ok f

def parsePairs : Fields → List Bytes → Except MagnetError Fields
  | f, [] => .ok f
  | f, pair :: pairs =>
    match parsePair parsePeer f pair with
    | .ok f' => parsePairs f' pairs
    | .error e => .error e

def parse (input : Bytes) : Except MagnetError Magnet :=
  match stripMagnetPrefix input with
  | none => .error .invalidUri
  | some rest =>
    let query := ((splitOnce (chr '?') rest).map (·.2)).getD rest
    if query = [] then .error .missingXt
    else
      match parsePairs parsePeer {} (query.splitOn (chr '&')) with
      | .error e => .error e
      | .ok f =>
        match f.infoHash with
        | some infoHash => .ok ⟨infoHash, f.displayName, f.trackers, f.peers, f.webseeds⟩
        | none => if f.sawV2 then .error .v2NotSupported else .error .missingXt

end Parse

def hexDigit (n : Nat) : UInt8 := if n < 10 then (48 + n).toUInt8 else (87 + n).toUInt8

def hexInfoHash (d : Digest) : Bytes :=
  d.toBytes.flatMap fun b => [hexDigit (b.toNat / 16), hexDigit (b.toNat % 16)]

def nameOrHash (m : Magnet) : Bytes := m.displayName.getD (hexInfoHash m.infoHash)

example : (parse (fun _ => none)
    (ascii "magnet:?xt=urn:btih:00000000000000000000000000000000000000ff&dn=%2e%2E/x")).map
      nameOrHash = .ok (ascii "../x") := by
  decide

section Base32

open List Nat

/-- The alphabet of RFC 4648. -/
def base32Char (d : Nat) : UInt8 := if d < 26 then (65 + d).toUInt8 else (24 + d).toUInt8

def base32Text (h : Digest) : Bytes := (digitsAppend 32 32 h.toNat).reverse.map base32Char

lemma base32Value_iff {raw : UInt8} {d : Nat} :
    base32Value raw = some d ↔ d < 32 ∧ base32Char d = toAsciiUppercase raw := by
  have hall : ∀ raw : BitVec 8, ((base32Value ⟨raw⟩).all fun d =>
      d < 32 ∧ base32Char d = toAsciiUppercase ⟨raw⟩) ∧
      ∀ d < 32, base32Char d = toAsciiUppercase ⟨raw⟩ → base32Value ⟨raw⟩ = some d := by
    decide +kernel
  obtain ⟨hsome, hchar⟩ := hall raw.toBitVec
  refine ⟨fun h => ?_, fun h => hchar d h.1 h.2⟩
  simpa [h] using hsome

/-- `ds` are the digits that `input` writes. -/
abbrev Spells : List Nat → Bytes → Prop := Forall₂ fun d raw => base32Value raw = some d

lemma spells_iff {ds : List Nat} {input : Bytes} : Spells ds input ↔
    (∀ d ∈ ds, d < 32) ∧ ds.map base32Char = input.map toAsciiUppercase := by
  rw [← forall₂_eq_eq_eq, forall₂_map_left_iff, forall₂_map_right_iff, ← forall₂_and_left]
  exact ⟨(·.imp fun _ _ => base32Value_iff.1), (·.imp fun _ _ => base32Value_iff.2)⟩

lemma exists_spells_cons {raw : UInt8} {input : Bytes} {P : List Nat → Prop} :
    (∃ ds, Spells ds (raw :: input) ∧ P ds) ↔
      ∃ d, base32Value raw = some d ∧ ∃ ds, Spells ds input ∧ P (d :: ds) := by
  constructor
  · rintro ⟨_, _ | ⟨hd, hs⟩, hP⟩
    exact ⟨_, hd, _, hs, hP⟩
  · rintro ⟨d, hd, ds, hs, hP⟩
    exact ⟨_, .cons hd hs, hP⟩

lemma decodeBase32Loop_ok {acc bits : Nat} {out input r : Bytes} (hbits : bits < 8)
    (hacc : acc < 2 ^ bits) (hlen : 8 * out.length + bits + 5 * input.length = 160) :
    decodeBase32Loop acc bits out input = .ok r ↔ ∃ ds, Spells ds input ∧
      toBe 20 (ds.foldl (fun n d => d + 32 * n) (beToNat out * 2 ^ bits + acc)) = r := by
  induction input generalizing acc bits out with
  | nil =>
    obtain ⟨rfl, hout⟩ : bits = 0 ∧ out.length = 20 := by
      rw [length_nil] at hlen
      omega
    obtain rfl : acc = 0 := by simpa using hacc
    have hval := toBe_beToNat out
    rw [hout] at hval
    simp [decodeBase32Loop, Spells, hout, hval]
  | cons raw input ih =>
    rw [length_cons] at hlen
    rw [decodeBase32Loop, exists_spells_cons]
    cases hv : base32Value raw with
    | none => simp
    | some d =>
      have hd : d < 32 := (base32Value_iff.1 hv).1
      have hnum : acc * 32 + d < 2 ^ (bits + 5) := by
        rw [Nat.pow_add]
        omega
      have hword : 2 ^ (bits + 5) ≤ 2 ^ 32 := Nat.pow_le_pow_right (by decide) (by omega)
      simp only [Option.some.injEq, exists_eq_left', foldl_cons,
        Nat.mod_eq_of_lt (hnum.trans_le hword)]
      split
      · rename_i hge
        obtain ⟨k, rfl⟩ : ∃ k, bits = k + 3 := ⟨bits - 3, by omega⟩
        simp only [show k + 3 + 5 - 8 = k by omega]
        have hbyte : (acc * 32 + d) / 2 ^ k < 256 := by
          rw [Nat.add_assoc, Nat.pow_add] at hnum
          exact Nat.div_lt_of_lt_mul hnum
        rw [if_neg (by omega), ih (by omega) (Nat.mod_lt _ (Nat.two_pow_pos k)) (by simp; omega),
          beToNat_append]
        have hval : (beToNat out * 256 + ((acc * 32 + d) / 2 ^ k).toUInt8.toNat) * 2 ^ k +
            (acc * 32 + d) % 2 ^ k = d + 32 * (beToNat out * 2 ^ (k + 3) + acc) := by
          rw [Nat.toUInt8, UInt8.toNat_ofNat', Nat.mod_eq_of_lt hbyte, Nat.add_mul, Nat.add_assoc,
            Nat.div_add_mod', Nat.pow_add]
          ring
        rw [hval]
      · rw [ih (by omega) hnum (by omega), show d + 32 * (beToNat out * 2 ^ bits + acc) =
          beToNat out * 2 ^ (bits + 5) + (acc * 32 + d) by ring]

/-- A text is decoded to `h` exactly if it is the base32 spelling of `h`, each letter in either
case. -/
theorem decodeBase32_iff (input : Bytes) (h : Digest) :
    decodeBase32 input = .ok h ↔ input.map toAsciiUppercase = base32Text h := by
  unfold decodeBase32
  by_cases hlen : input.length = 32
  · rw [if_neg (not_not.2 hlen)]
    have hloop {r : Bytes} : decodeBase32Loop 0 0 [] input = .ok r ↔
        ∃ ds, Spells ds input ∧ toBe 20 (ofDigits 32 ds.reverse) = r := by
      simp only [ofDigits_eq_foldr, foldr_reverse]
      exact decodeBase32Loop_ok (by decide) one_pos (by simp [hlen])
    have hdigest {n : Nat} (hn : n < 32 ^ 32) : (Digest.ofBytes (toBe 20 n)).toNat = n := by
      rw [Digest.ofBytes, beToNat_toBe hn, BitVec.toNat_ofNat]
      exact Nat.mod_eq_of_lt hn
    have hinv := setInvOn_digitsAppend_ofDigits (b := 32) (by decide) 32
    constructor
    · intro hok
      cases hr : decodeBase32Loop 0 0 [] input with
      | error e => simp [hr, Except.map] at hok
      | ok r =>
        obtain ⟨ds, hs, rfl⟩ := hloop.1 hr
        obtain ⟨hlt, hmap⟩ := spells_iff.1 hs
        obtain rfl : .ofBytes _ = h := by simpa [hr, Except.map] using hok
        have hds : ds.length = 32 := hs.length_eq.trans hlen
        have hmem : ds.reverse.length = 32 ∧ ∀ d ∈ ds.reverse, d < 32 := by simpa using ⟨hds, hlt⟩
        rw [base32Text, hdigest (mapsTo_ofDigits (by decide) 32 hmem), hinv.1 hmem, reverse_reverse]
        exact hmap.symm
    · intro htext
      have hs : Spells (digitsAppend 32 32 h.toNat).reverse input := spells_iff.2
        ⟨fun d hd => lt_of_mem_digitsAppend (by decide) 32 d (mem_reverse.1 hd), htext.symm⟩
      rw [hloop.2 ⟨_, hs, rfl⟩, reverse_reverse, hinv.2 h.isLt]
      exact congrArg Except.ok (BitVec.eq_of_toNat_eq (hdigest h.isLt))
  · rw [if_pos hlen]
    refine iff_of_false nofun fun heq => hlen ?_
    simpa [base32Text, length_digitsAppend (b := 32) (by decide) 32 h.isLt] using congrArg length heq

end Base32

end Magnet

end BitRev
