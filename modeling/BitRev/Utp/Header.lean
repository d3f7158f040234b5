import BitRev.Framework.Bytes

/-!
# Packets of the micro transport protocol

`utp/header.rs`: the 20-byte header, its chain of extensions, and the selective ack of extension 1.
What `encode` writes for a packet as the connections and the socket make them, `decode` reads, and it
accepts nothing else (`Packet.codec_exact`).
-/

namespace BitRev.Utp

open List

def headerLen : Nat := 20
def version : UInt8 := 1
def maxExtensionBytes : Nat := 64

inductive PacketType where
  | data | fin | state | reset | syn
  deriving DecidableEq

namespace PacketType

def toU4 : PacketType → UInt8
  | data => 0
  | fin => 1
  | state => 2
  | reset => 3
  | syn => 4

def fromU4 (n : UInt8) : Option PacketType :=
  if n = 0 then some data
  else if n = 1 then some fin
  else if n = 2 then some state
  else if n = 3 then some reset
  else if n = 4 then some syn
  else none

lemma fromU4_toU4 (ty : PacketType) : fromU4 ty.toU4 = some ty := by cases ty <;> rfl

end PacketType

structure Extension where
  ty : UInt8
  data : Bytes
  deriving DecidableEq

structure Packet where
  ty : PacketType
  version : UInt8 := Utp.version
  connectionId : BitVec 16
  timestamp : BitVec 32 := 0
  timestampDiff : BitVec 32 := 0
  wndSize : BitVec 32 := 0
  seqNr : BitVec 16
  ackNr : BitVec 16
  extensions : List Extension := []
  payload : Bytes := []
  deriving DecidableEq

inductive DecodeError where
  | tooShort | badVersion | badType | badExtension

namespace Packet

def nextType (exts : List Extension) : UInt8 := (exts.head?.map (·.ty)).getD 0

def encodeExtensions : List Extension → Bytes
  | [] => []
  | ext :: exts =>
    nextType exts :: ext.data.length.toUInt8 :: ext.data ++ encodeExtensions exts

def encode (p : Packet) : Bytes :=
  ((p.ty.toU4 <<< 4) ||| (p.version &&& 0x0f)) :: nextType p.extensions ::
    (toBe 2 p.connectionId.toNat ++ toBe 4 p.timestamp.toNat ++ toBe 4 p.timestampDiff.toNat ++
      toBe 4 p.wndSize.toNat ++ toBe 2 p.seqNr.toNat ++ toBe 2 p.ackNr.toNat ++
      encodeExtensions p.extensions ++ p.payload)

/-- The loop over the extensions: `ty` is the type of the next one, `total` the bytes of those
before. Each takes two bytes at least, so the bytes left bound the turns. -/
def decodeExtensions : Nat → UInt8 → Bytes → Nat → Except DecodeError (List Extension × Bytes)
  | 0, ty, buf, _ => if ty = 0 then .ok ([], buf) else .error .badExtension
  | fuel + 1, ty, buf, total =>
    if ty = 0 then .ok ([], buf)
    else
      match buf with
      | next :: len :: rest =>
        if rest.length < len.toNat then .error .badExtension
        else if total + (2 + len.toNat) > maxExtensionBytes then .error .badExtension
        else
          match decodeExtensions fuel next (rest.drop len.toNat) (total + (2 + len.toNat)) with
          | .error e => .error e
          | .ok (exts, payload) => .ok ({ ty, data := rest.take len.toNat } :: exts, payload)
      | _ => .error .badExtension

def decode (buf : Bytes) : Except DecodeError Packet :=
  if buf.length < headerLen then .error .tooShort
  else
    let typeVer := buf.getD 0 0
    if typeVer &&& 0x0f ≠ Utp.version then .error .badVersion
    else
      match PacketType.fromU4 (typeVer >>> 4) with
      | none => .error .badType
      | some ty =>
        let field (offset n : Nat) : Nat := beToNat ((buf.drop offset).take n)
        match decodeExtensions (buf.length - headerLen) (buf.getD 1 0) (buf.drop headerLen) 0 with
        | .error e => .error e
        | .ok (extensions, payload) =>
          .ok
            { ty, version := typeVer &&& 0x0f, connectionId := .ofNat 16 (field 2 2)
              timestamp := .ofNat 32 (field 4 4), timestampDiff := .ofNat 32 (field 8 4)
              wndSize := .ofNat 32 (field 12 4), seqNr := .ofNat 16 (field 16 2)
              ackNr := .ofNat 16 (field 18 2), extensions, payload }

/-- What the extensions take in a packet. -/
def extensionBytes (exts : List Extension) : Nat := (exts.map fun ext => 2 + ext.data.length).sum

/-- A packet that `decode` gives back. -/
structure Sendable (p : Packet) : Prop where
  version : p.version = Utp.version
  typed : ∀ ext ∈ p.extensions, ext.ty ≠ 0
  fits : extensionBytes p.extensions ≤ maxExtensionBytes

lemma decodeExtensions_encode {exts : List Extension} (hty : ∀ ext ∈ exts, ext.ty ≠ 0)
    (payload : Bytes) {total : Nat} (fuel : Nat) (hfits : total + extensionBytes exts ≤ maxExtensionBytes)
    (hfuel : exts.length ≤ fuel) :
    decodeExtensions fuel (nextType exts) (encodeExtensions exts ++ payload) total =
      .ok (exts, payload) := by
  induction exts generalizing total fuel with
  | nil => cases fuel <;> exact if_pos rfl
  | cons ext exts ih =>
    have hext : nextType (ext :: exts) ≠ 0 := hty ext mem_cons_self
    cases fuel with
    | zero => simp at hfuel
    | succ fuel =>
      have hsum : extensionBytes (ext :: exts) = 2 + ext.data.length + extensionBytes exts := rfl
      have hmax : maxExtensionBytes = 64 := rfl
      have hlen : ext.data.length.toUInt8.toNat = ext.data.length := by
        rw [Nat.toUInt8, UInt8.toNat_ofNat']
        omega
      simp only [decodeExtensions, hext, if_false, encodeExtensions, cons_append,
        append_assoc, hlen, length_append]
      rw [if_neg (by omega), if_neg (by omega), drop_left, take_left,
        ih (fun e he => hty e (mem_cons_of_mem _ he)) fuel (by omega) (by simpa using hfuel)]
      rfl

lemma typeVer_low (ty : PacketType) :
    ((ty.toU4 <<< 4) ||| (Utp.version &&& 0x0f)) &&& 0x0f = Utp.version := by
  cases ty <;> decide

lemma typeVer_high (ty : PacketType) :
    ((ty.toU4 <<< 4) ||| (Utp.version &&& 0x0f)) >>> 4 = ty.toU4 := by
  cases ty <;> decide

lemma ofNat_beToNat_toBe {w n : Nat} (hw : 2 ^ w = 256 ^ n) (x : BitVec w) :
    BitVec.ofNat w (beToNat (toBe n x.toNat)) = x := by
  rw [beToNat_toBe (hw ▸ x.isLt), BitVec.ofNat_toNat, BitVec.setWidth_eq]

lemma length_encodeExtensions (exts : List Extension) :
    (encodeExtensions exts).length = extensionBytes exts := by
  induction exts with
  | nil => rfl
  | cons ext exts ih =>
    have hsum : extensionBytes (ext :: exts) = 2 + ext.data.length + extensionBytes exts := rfl
    simp only [encodeExtensions, cons_append, length_cons, length_append, ih]
    omega

lemma length_le_extensionBytes (exts : List Extension) : exts.length ≤ extensionBytes exts := by
  induction exts with
  | nil => exact le_refl 0
  | cons ext exts ih =>
    have hsum : extensionBytes (ext :: exts) = 2 + ext.data.length + extensionBytes exts := rfl
    rw [length_cons]
    omega

/-- What is sent is what is received. -/
lemma decode_encode {p : Packet} (h : p.Sendable) : decode p.encode = .ok p := by
  obtain ⟨ty, ver, conn, ts, diff, wnd, seq, ack, exts, payload⟩ := p
  obtain rfl : ver = Utp.version := h.version
  set buf := encode ⟨ty, Utp.version, conn, ts, diff, wnd, seq, ack, exts, payload⟩ with hset
  have hbuf : buf = ((ty.toU4 <<< 4) ||| (Utp.version &&& 0x0f)) :: nextType exts ::
      (toBe 2 conn.toNat ++ (toBe 4 ts.toNat ++ (toBe 4 diff.toNat ++ (toBe 4 wnd.toNat ++
        (toBe 2 seq.toNat ++ (toBe 2 ack.toNat ++ (encodeExtensions exts ++ payload))))))) := by
    simp [hset, encode]
  have h0 : buf.getD 0 0 = (ty.toU4 <<< 4) ||| (Utp.version &&& 0x0f) := by rw [hbuf]; rfl
  have h1 : buf.getD 1 0 = nextType exts := by rw [hbuf]; rfl
  have h2 := congrArg (drop 2) hbuf
  rw [drop_succ_cons, drop_succ_cons, drop_zero] at h2
  obtain ⟨hconn, h4⟩ := drop_field h2 (length_toBe 2 _)
  obtain ⟨hts, h8⟩ := drop_field h4 (length_toBe 4 _)
  obtain ⟨hdiff, h12⟩ := drop_field h8 (length_toBe 4 _)
  obtain ⟨hwnd, h16⟩ := drop_field h12 (length_toBe 4 _)
  obtain ⟨hseq, h18⟩ := drop_field h16 (length_toBe 2 _)
  obtain ⟨hack, h20⟩ := drop_field h18 (length_toBe 2 _)
  have hlen : buf.length = headerLen + (extensionBytes exts + payload.length) := by
    have := congrArg length h20
    have hmin : headerLen ≤ buf.length := by
      simp only [hbuf, length_cons, length_append, length_toBe, headerLen]
      omega
    rw [length_drop, length_append, length_encodeExtensions] at this
    simp only [headerLen] at hmin ⊢
    omega
  have hfuel : exts.length ≤ buf.length - headerLen := by
    have := length_le_extensionBytes exts
    omega
  have hfits : 0 + extensionBytes exts ≤ maxExtensionBytes := by
    rw [zero_add]
    exact h.fits
  have hexts := decodeExtensions_encode h.typed payload (buf.length - headerLen) hfits hfuel
  unfold decode
  rw [if_neg (by omega)]
  dsimp only
  rw [h0, h1, typeVer_low, typeVer_high, if_neg (not_not.2 rfl), PacketType.fromU4_toU4]
  dsimp only
  rw [show buf.drop headerLen = encodeExtensions exts ++ payload from h20, hexts]
  dsimp only
  rw [hconn, show buf.drop 4 = buf.drop (2 + 2) from rfl, hts,
    show buf.drop 8 = buf.drop (2 + 2 + 4) from rfl, hdiff,
    show buf.drop 12 = buf.drop (2 + 2 + 4 + 4) from rfl, hwnd,
    show buf.drop 16 = buf.drop (2 + 2 + 4 + 4 + 4) from rfl, hseq,
    show buf.drop 18 = buf.drop (2 + 2 + 4 + 4 + 4 + 2) from rfl, hack]
  simp only [ofNat_beToNat_toBe (w := 16) (n := 2) rfl, ofNat_beToNat_toBe (w := 32) (n := 4) rfl]

/-- What is accepted of the extensions is what their encoding starts with. -/
lemma encode_decodeExtensions {fuel total : Nat} {ty : UInt8} {buf payload : Bytes}
    {exts : List Extension} (h : decodeExtensions fuel ty buf total = .ok (exts, payload)) :
    nextType exts = ty ∧ encodeExtensions exts ++ payload = buf := by
  induction fuel generalizing ty buf total exts with
  | zero =>
    simp only [decodeExtensions] at h
    split_ifs at h with hty
    cases h
    exact ⟨hty.symm, rfl⟩
  | succ fuel ih =>
    simp only [decodeExtensions] at h
    split at h
    · rename_i hty
      cases h
      exact ⟨hty.symm, rfl⟩
    split at h
    · rename_i next len rest
      split at h
      · cases h
      rename_i hlen
      split at h
      · cases h
      split at h
      · cases h
      rename_i hrest
      cases h
      obtain ⟨hnext, hbuf⟩ := ih hrest
      have htake : (rest.take len.toNat).length.toUInt8 = len := by
        rw [List.length_take_of_le (Nat.le_of_not_lt hlen), Nat.toUInt8, UInt8.ofNat_toNat]
      refine ⟨rfl, ?_⟩
      simp only [encodeExtensions, hnext, htake, cons_append, append_assoc, hbuf,
        take_append_drop]
    · cases h

lemma typeVer_join {b : UInt8} {ty : PacketType} (h : PacketType.fromU4 (b >>> 4) = some ty) :
    (ty.toU4 <<< 4) ||| (b &&& 0x0f &&& 0x0f) = b := by
  have hty : ty.toU4 = b >>> 4 := by
    unfold PacketType.fromU4 at h
    split_ifs at h with h₀ h₁ h₂ h₃ h₄ <;> cases h <;> simp only [PacketType.toU4, *]
  have hbits : ∀ b : BitVec 8, (b >>> 4 <<< 4) ||| (b &&& 0x0f &&& 0x0f) = b := by decide +kernel
  rw [hty]
  exact UInt8.toBitVec_inj.1 (hbits b.toBitVec)

/-- The field at an offset, written again. -/
lemma toBe_field {w n : Nat} (hw : 2 ^ w = 256 ^ n) {buf : Bytes} {i : Nat}
    (hlen : i + n ≤ buf.length) :
    toBe n (BitVec.ofNat w (beToNat ((buf.drop i).take n))).toNat ++ buf.drop (i + n) =
      buf.drop i := by
  have hn : ((buf.drop i).take n).length = n := by
    rw [length_take, length_drop]
    omega
  have hlt := beToNat_lt ((buf.drop i).take n)
  have hbe := toBe_beToNat ((buf.drop i).take n)
  rw [hn] at hlt hbe
  rw [BitVec.toNat_ofNat, Nat.mod_eq_of_lt (hw ▸ hlt), hbe, ← drop_drop, take_append_drop]

/-- What is received is what was sent. -/
lemma encode_decode {buf : Bytes} {p : Packet} (h : decode buf = .ok p) : p.encode = buf := by
  unfold decode at h
  split_ifs at h with hlen
  dsimp only at h
  split_ifs at h
  split at h
  · cases h
  rename_i ty hty
  split at h
  · cases h
  rename_i exts payload hexts
  cases h
  obtain ⟨hnext, hrest⟩ := encode_decodeExtensions hexts
  have hmin : 20 ≤ buf.length := Nat.le_of_not_lt hlen
  have hhead : buf.getD 0 0 :: buf.getD 1 0 :: buf.drop 2 = buf := by
    match buf, hmin with
    | _ :: _ :: _, _ => rfl
  rw [show buf.drop headerLen = buf.drop (18 + 2) from rfl] at hrest
  simp only [encode, append_assoc]
  rw [typeVer_join hty, hnext, hrest, toBe_field rfl (by omega),
    show buf.drop 18 = buf.drop (16 + 2) from rfl, toBe_field rfl (by omega),
    show buf.drop 16 = buf.drop (12 + 4) from rfl, toBe_field rfl (by omega),
    show buf.drop 12 = buf.drop (8 + 4) from rfl, toBe_field rfl (by omega),
    show buf.drop 8 = buf.drop (4 + 4) from rfl, toBe_field rfl (by omega),
    show buf.drop 4 = buf.drop (2 + 2) from rfl, toBe_field rfl (by omega), hhead]

/-- `decode` gives back every packet that can be sent, and accepts of the byte strings only those
that `encode` writes, each as a packet of its own. -/
theorem codec_exact :
    (∀ p : Packet, p.Sendable → decode p.encode = .ok p) ∧
      (∀ (buf : Bytes) (p : Packet), decode buf = .ok p → p.encode = buf) ∧
      ∀ (buf buf' : Bytes) (p : Packet), decode buf = .ok p → decode buf' = .ok p → buf = buf' :=
  ⟨fun _ => decode_encode, fun _ _ => encode_decode,
    fun _ _ _ h h' => (encode_decode h).symm.trans (encode_decode h')⟩

end Packet

end BitRev.Utp
