import BitRev.Framework.Bytes

/-!
# Messages on the wire

`message.rs` and `protocol.rs`: every message is written as its length, an id and a payload, and
read back from a stream that gives its bytes in pieces of any size. The text of a message and the
timeouts are left out.

* `readExact_spec`: how a stream is cut does not matter to `read_exact`.
* `Protocol.read_message`: one `read` takes the bytes of one message and no more.
-/

namespace BitRev.Wire

open List

inductive MessageId where
  | choke | unchoke | interested | notInterested | have | bitfield | request | piece | cancel | port
  | suggestPiece | haveAll | haveNone | rejectRequest | allowedFast | extended | hashRequest | hashes
  | hashReject

namespace MessageId

def toByte : MessageId → UInt8
  | choke => 0
  | unchoke => 1
  | interested => 2
  | notInterested => 3
  | «have» => 4
  | bitfield => 5
  | request => 6
  | piece => 7
  | cancel => 8
  | port => 9
  | suggestPiece => 13
  | haveAll => 14
  | haveNone => 15
  | rejectRequest => 16
  | allowedFast => 17
  | extended => 20
  | hashRequest => 21
  | hashes => 22
  | hashReject => 23

def ofByte : UInt8 → Option MessageId
  | 0 => some choke
  | 1 => some unchoke
  | 2 => some interested
  | 3 => some notInterested
  | 4 => some «have»
  | 5 => some bitfield
  | 6 => some request
  | 7 => some piece
  | 8 => some cancel
  | 9 => some port
  | 13 => some suggestPiece
  | 14 => some haveAll
  | 15 => some haveNone
  | 16 => some rejectRequest
  | 17 => some allowedFast
  | 20 => some extended
  | 21 => some hashRequest
  | 22 => some hashes
  | 23 => some hashReject
  | _ => none

lemma ofByte_toByte (id : MessageId) : ofByte id.toByte = some id := by
  cases id <;> rfl

/-- The shortest payload that `read` takes. -/
def minLength : MessageId → Nat
  | «have» | suggestPiece | allowedFast => 4
  | port => 2
  | request | cancel | rejectRequest => 12
  | piece => 8
  | extended => 1
  | _ => 0

end MessageId

def toBe32 (x : UInt32) : Bytes := toBe 4 x.toNat

def ofBe32 (bs : Bytes) : UInt32 := (beToNat (bs.take 4)).toUInt32

lemma length_toBe32 (x : UInt32) : (toBe32 x).length = 4 := length_toBe 4 _

@[simp] lemma ofBe32_toBe32 (x : UInt32) (bs : Bytes) : ofBe32 (toBe32 x ++ bs) = x := by
  rw [ofBe32, take_left' (length_toBe32 x), toBe32, beToNat_toBe x.toNat_lt]
  simp

structure PieceChunk where
  index : UInt32
  start : UInt32
  length : UInt32
  data : Bytes

structure BlockRequest where
  index : UInt32
  begin : UInt32
  length : UInt32

namespace BlockRequest

def toPayload (r : BlockRequest) : Bytes := toBe32 r.index ++ toBe32 r.begin ++ toBe32 r.length

/-- `from_payload` of a payload that is long enough. -/
def ofPayload (bs : Bytes) : BlockRequest := ⟨ofBe32 bs, ofBe32 (bs.drop 4), ofBe32 (bs.drop 8)⟩

lemma ofPayload_toPayload (r : BlockRequest) : ofPayload r.toPayload = r := by
  have h₁ : r.toPayload = toBe32 r.index ++ (toBe32 r.begin ++ (toBe32 r.length ++ [])) := by
    simp [toPayload]
  have h₂ : r.toPayload.drop 4 = toBe32 r.begin ++ (toBe32 r.length ++ []) := by
    rw [h₁, drop_left' (length_toBe32 _)]
  have h₃ : r.toPayload.drop 8 = toBe32 r.length ++ [] := by
    rw [show r.toPayload.drop 8 = (r.toPayload.drop 4).drop 4 by rw [drop_drop], h₂,
      drop_left' (length_toBe32 _)]
  simp only [ofPayload]
  rw [h₂, h₃, h₁, ofBe32_toBe32, ofBe32_toBe32, ofBe32_toBe32]

end BlockRequest

inductive Message where
  | choke | unchoke | interested | notInterested
  | have (index : UInt32)
  | bitfield (payload : Bytes)
  | request (payload : Bytes)
  | piece (chunk : PieceChunk)
  | cancel (payload : Bytes)
  | port (port : UInt16)
  | suggestPiece (index : UInt32)
  | haveAll
  | haveNone
  | rejectRequest (req : BlockRequest)
  | allowedFast (index : UInt32)
  | extended (extId : UInt8) (payload : Bytes)
  | hashRequest
  | hashes (payload : Bytes)
  | hashReject
  | keepAlive

/-- The id and the payload of a message; `KeepAlive` has none. -/
def Message.parts : Message → Option (MessageId × Bytes)
  | choke => some (.choke, [])
  | unchoke => some (.unchoke, [])
  | interested => some (.interested, [])
  | notInterested => some (.notInterested, [])
  | .have index => some (.have, toBe32 index)
  | bitfield payload => some (.bitfield, payload)
  | request payload => some (.request, payload)
  | piece chunk => some (.piece, toBe32 chunk.index ++ (toBe32 chunk.start ++ chunk.data))
  | cancel payload => some (.cancel, payload)
  | port p => some (.port, toBe 2 p.toNat)
  | suggestPiece index => some (.suggestPiece, toBe32 index)
  | haveAll => some (.haveAll, [])
  | haveNone => some (.haveNone, [])
  | rejectRequest req => some (.rejectRequest, req.toPayload)
  | allowedFast index => some (.allowedFast, toBe32 index)
  | extended extId payload => some (.extended, extId :: payload)
  | hashRequest => some (.hashRequest, [])
  | hashes payload => some (.hashes, payload)
  | hashReject => some (.hashReject, [])
  | keepAlive => none

def serialize : Option Message → Bytes
  | none => []
  | some m =>
    match m.parts with
    | none => [0, 0, 0, 0]
    | some (id, payload) => toBe 4 ((payload.length + 1) % 2 ^ 32) ++ id.toByte :: payload

/-- `From<MessageInner>`. -/
def ofInner (payload : Bytes) : MessageId → Message
  | .choke => .choke
  | .unchoke => .unchoke
  | .interested => .interested
  | .notInterested => .notInterested
  | .have => .have (ofBe32 payload)
  | .bitfield => .bitfield payload
  | .request => .request (payload.take 12)
  | .piece =>
    let data := payload.drop 8
    .piece ⟨ofBe32 payload, ofBe32 (payload.drop 4), data.length.toUInt32, data⟩
  | .cancel => .cancel (payload.take 12)
  | .port => .port (beToNat (payload.take 2)).toUInt16
  | .suggestPiece => .suggestPiece (ofBe32 payload)
  | .haveAll => .haveAll
  | .haveNone => .haveNone
  | .rejectRequest => .rejectRequest (.ofPayload payload)
  | .allowedFast => .allowedFast (ofBe32 payload)
  | .extended => .extended payload.head! payload.tail
  | .hashRequest => .hashRequest
  | .hashes => .hashes payload
  | .hashReject => .hashReject

inductive DecodeError where
  | truncated
  | unknownId (id : UInt8)
  | invalidLengthPrefix

/-- `message::read`. -/
def read (lengthBuf messageBuf : Bytes) : Except DecodeError Message :=
  if lengthBuf.length ≠ 4 then .error .invalidLengthPrefix
  else
    let length := beToNat lengthBuf
    if length = 0 then .ok .keepAlive
    else
      match messageBuf with
      | [] => .error .truncated
      | id :: rest =>
        if messageBuf.length < length then .error .truncated
        else
          match MessageId.ofByte id with
          | none => .error (.unknownId id)
          | some messageId =>
            let payload := rest.take (length - 1)
            if payload.length < messageId.minLength then .error .truncated
            else .ok (ofInner payload messageId)

/-! ## The stream -/

/-- `read_exact` on a stream, given by what each read of it finds; an empty piece is a wait. `none`
is that the stream ends before. -/
def readExact : Nat → List Bytes → Option (Bytes × List Bytes)
  | 0, s => some ([], s)
  | _ + 1, [] => none
  | n + 1, c :: cs =>
    if c.length ≤ n + 1 then (readExact (n + 1 - c.length) cs).map fun r => (c ++ r.1, r.2)
    else some (c.take (n + 1), c.drop (n + 1) :: cs)

/-- Only the bytes of the stream matter to `read_exact`, not how they are cut. -/
lemma readExact_spec {bs rest : Bytes} {s : List Bytes} (h : s.flatten = bs ++ rest) :
    ∃ s', readExact bs.length s = some (bs, s') ∧ s'.flatten = rest := by
  induction s generalizing bs with
  | nil =>
    obtain ⟨rfl, rfl⟩ : bs = [] ∧ rest = [] := by simpa using h.symm
    exact ⟨[], rfl, rfl⟩
  | cons c cs ih =>
    cases bs with
    | nil => exact ⟨c :: cs, rfl, h⟩
    | cons b bs =>
      rw [flatten_cons] at h
      simp only [length_cons, readExact]
      split
      · rename_i hle
        -- The piece is used up.
        obtain ⟨more, hmore⟩ : ∃ more, b :: bs = c ++ more := by
          have htake := congrArg (take c.length) h
          rw [take_left, take_append_of_le_length hle] at htake
          refine ⟨(b :: bs).drop c.length, ?_⟩
          calc b :: bs = (b :: bs).take c.length ++ (b :: bs).drop c.length :=
                (take_append_drop _ _).symm
            _ = c ++ (b :: bs).drop c.length := by rw [← htake]
        rw [hmore, append_assoc] at h
        obtain ⟨s', hs', hrest⟩ := ih (append_cancel_left h)
        have hlen : bs.length + 1 - c.length = more.length := by
          have := congrArg length hmore
          simp only [length_cons, length_append] at this
          omega
        exact ⟨s', by rw [hlen, hs', hmore]; rfl, hrest⟩
      · rename_i hlt
        have htake := congrArg (take (b :: bs).length) h
        have hdrop := congrArg (drop (b :: bs).length) h
        rw [take_left, take_append_of_le_length (by simpa using Nat.le_of_not_le hlt)]
          at htake
        rw [drop_left, drop_append_of_le_length (by simpa using Nat.le_of_not_le hlt)]
          at hdrop
        exact ⟨_, by rw [← htake]; rfl, by rw [← hdrop]; rfl⟩

def maxMessageLen : Nat := 2 * 1024 * 1024

inductive Frame where
  | keepAlive
  | message (m : Message)
  | unknown (id : UInt8)
  | eof

/-- The errors of `read` on a stream that never fails. -/
inductive ProtocolError where
  | messageTooLarge (length : Nat)
  | truncated

def frameFromParts (lengthBuf msgBytes : Bytes) : Except ProtocolError Frame :=
  match read lengthBuf msgBytes with
  | .ok .keepAlive => .ok .keepAlive
  | .ok msg => .ok (.message msg)
  | .error (.unknownId id) => .ok (.unknown id)
  | .error _ => .error .truncated

structure Protocol where
  pieceCount : Option Nat

namespace Protocol

/-- The frame, and what is left of the stream. -/
def read (p : Protocol) (s : List Bytes) : Except ProtocolError (Frame × List Bytes) :=
  match readExact 4 s with
  | none => .ok (.eof, [])
  | some (lengthBuf, s) =>
    let length := beToNat lengthBuf
    if length = 0 then .ok (.keepAlive, s)
    else if maxMessageLen < length then .error (.messageTooLarge length)
    else
      match readExact 1 s with
      | none => .error .truncated
      | some (idBuf, s) =>
        let remaining := length - 1
        if idBuf = [MessageId.bitfield.toByte] ∧
            (p.pieceCount.any fun count => (count + 7) / 8 < remaining) then
          .error (.messageTooLarge length)
        else
          match readExact remaining s with
          | none => .error .truncated
          | some (rest, s) => (frameFromParts lengthBuf (idBuf ++ rest)).map (·, s)

/-- The frames of `n` reads, one after another. -/
def readFrames (p : Protocol) : Nat → List Bytes → Except ProtocolError (List Frame)
  | 0, _ => .ok []
  | n + 1, s => (p.read s).bind fun r => (readFrames p n r.2).map (r.1 :: ·)

end Protocol

/-- What a peer may send. The length on the wire does not count its own four bytes. -/
structure Message.WellFormed (p : Protocol) (m : Message) : Prop where
  request : ∀ payload, m = .request payload ∨ m = .cancel payload → payload.length = 12
  piece : ∀ chunk, m = .piece chunk → chunk.length.toNat = chunk.data.length
  bitfield : ∀ payload count, m = .bitfield payload → p.pieceCount = some count →
    payload.length ≤ (count + 7) / 8
  length : (serialize (some m)).length ≤ 4 + maxMessageLen

def Message.frame : Message → Frame
  | .keepAlive => .keepAlive
  | m => .message m

section

variable {p : Protocol} {m : Message} {id : MessageId} {payload : Bytes}

lemma ofInner_parts (hm : m.WellFormed p) (hparts : m.parts = some (id, payload)) :
    ofInner payload id = m ∧ id.minLength ≤ payload.length := by
  cases m with
  | keepAlive => cases hparts
  | request bs =>
    cases hparts
    have hlen := hm.request payload (.inl rfl)
    exact ⟨by simp [ofInner, ← hlen], by simp [MessageId.minLength, hlen]⟩
  | cancel bs =>
    cases hparts
    have hlen := hm.request payload (.inr rfl)
    exact ⟨by simp [ofInner, ← hlen], by simp [MessageId.minLength, hlen]⟩
  | piece chunk =>
    cases hparts
    have hlen : chunk.data.length.toUInt32 = chunk.length := by
      rw [← hm.piece chunk rfl]
      simp
    have h₄ : (toBe32 chunk.index ++ (toBe32 chunk.start ++ chunk.data)).drop 4 =
        toBe32 chunk.start ++ chunk.data := drop_left' (length_toBe32 chunk.index)
    have h₈ : (toBe32 chunk.index ++ (toBe32 chunk.start ++ chunk.data)).drop 8 = chunk.data := by
      rw [show 8 = 4 + 4 from rfl, ← drop_drop, h₄, drop_left' (length_toBe32 _)]
    refine ⟨?_, by simp [MessageId.minLength, length_toBe32]; omega⟩
    simp only [ofInner, h₄, h₈, ofBe32_toBe32, hlen]
  | port port =>
    cases hparts
    refine ⟨?_, by simp [MessageId.minLength, length_toBe]⟩
    have hlt : port.toNat < 256 ^ 2 := port.toNat_lt
    simp [ofInner, take_of_length_le (le_of_eq (length_toBe 2 _)), beToNat_toBe hlt]
  | rejectRequest req =>
    cases hparts
    exact ⟨by simp [ofInner, BlockRequest.ofPayload_toPayload],
      by simp [MessageId.minLength, BlockRequest.toPayload, length_toBe32]⟩
  | «have» index | suggestPiece index | allowedFast index =>
    cases hparts
    have h := ofBe32_toBe32 index []
    rw [append_nil] at h
    exact ⟨by simp [ofInner, h], by simp [MessageId.minLength, length_toBe32]⟩
  | _ =>
    cases hparts
    exact ⟨rfl, by simp [MessageId.minLength]⟩

/-- `read` of the bytes of one message. -/
lemma read_parts (hm : m.WellFormed p) (hparts : m.parts = some (id, payload)) {lengthBuf : Bytes}
    (hbuf : lengthBuf.length = 4) (hlen : beToNat lengthBuf = payload.length + 1) :
    frameFromParts lengthBuf (id.toByte :: payload) = .ok m.frame := by
  obtain ⟨hof, hmin⟩ := ofInner_parts hm hparts
  have hread : Wire.read lengthBuf (id.toByte :: payload) = .ok m := by
    have htake : payload.take (payload.length + 1 - 1) = payload := by simp
    simp only [Wire.read, hbuf, hlen, MessageId.ofByte_toByte, htake, hof]
    simp [not_lt.2 hmin]
  rw [frameFromParts, hread]
  cases m <;> rfl

/-- One `read` takes the bytes of one message. -/
lemma Protocol.read_message (hm : m.WellFormed p) {s : List Bytes} {rest : Bytes}
    (hs : s.flatten = serialize (some m) ++ rest) :
    ∃ s', p.read s = .ok (m.frame, s') ∧ s'.flatten = rest := by
  cases hparts : m.parts with
  | none =>
    obtain rfl : m = .keepAlive := by
      cases m <;> simp [Message.parts] at hparts ⊢
    obtain ⟨s', hs', hrest⟩ := readExact_spec hs
    have h₄ : readExact 4 s = some ([0, 0, 0, 0], s') := hs'
    exact ⟨s', by simp [Protocol.read, h₄, beToNat, Message.frame], hrest⟩
  | some parts =>
    obtain ⟨id, payload⟩ := parts
    have hser : serialize (some m) =
        toBe 4 ((payload.length + 1) % 2 ^ 32) ++ id.toByte :: payload := by
      simp only [serialize, hparts]
    have hle : payload.length + 1 ≤ maxMessageLen := by
      have := hm.length
      rw [hser] at this
      simp only [length_append, length_toBe, length_cons] at this
      omega
    have hmod : (payload.length + 1) % 2 ^ 32 = payload.length + 1 :=
      Nat.mod_eq_of_lt (lt_of_le_of_lt hle (by decide))
    rw [hmod] at hser
    have hbe : beToNat (toBe 4 (payload.length + 1)) = payload.length + 1 :=
      beToNat_toBe (lt_of_le_of_lt hle (by decide))
    rw [hser, append_assoc] at hs
    obtain ⟨s₁, h₁, hs₁⟩ := readExact_spec hs
    rw [length_toBe] at h₁
    obtain ⟨s₂, h₂, hs₂⟩ :=
      readExact_spec (show s₁.flatten = [id.toByte] ++ (payload ++ rest) from hs₁)
    obtain ⟨s₃, h₃, hs₃⟩ := readExact_spec hs₂
    have hfits : ¬([id.toByte] = [MessageId.bitfield.toByte] ∧
        (p.pieceCount.any fun count => (count + 7) / 8 < payload.length + 1 - 1)) := by
      rintro ⟨hid, hany⟩
      obtain ⟨count, hcount, hlt⟩ := Option.any_eq_true _ _ |>.mp hany
      have hbit : m = .bitfield payload := by
        cases m <;> cases hparts <;> first | rfl | simp [MessageId.toByte] at hid
      have := hm.bitfield payload count hbit hcount
      have := of_decide_eq_true hlt
      omega
    refine ⟨s₃, ?_, hs₃⟩
    have h₂' : readExact 1 s₁ = some ([id.toByte], s₂) := h₂
    have h₃' : readExact (payload.length + 1 - 1) s₂ = some (payload, s₃) := h₃
    rw [Protocol.read, h₁]
    simp only [hbe, h₂', if_neg hfits, h₃', Nat.succ_ne_zero, if_false, not_lt.2 hle]
    have hframe := read_parts hm hparts (length_toBe 4 _) hbe
    rw [singleton_append, hframe]
    rfl

end

/-- Messages written one after another are read back in order, however the stream is cut, and then
its end. -/
theorem Protocol.read_serialized (p : Protocol) (ms : List Message)
    (hms : ∀ m ∈ ms, m.WellFormed p) (s : List Bytes)
    (hs : s.flatten = ms.flatMap fun m => serialize (some m)) :
    p.readFrames (ms.length + 1) s = .ok (ms.map Message.frame ++ [.eof]) := by
  induction ms generalizing s with
  | nil =>
    have hend : readExact 4 s = none := by
      rw [flatMap_nil, flatten_eq_nil_iff] at hs
      induction s with
      | nil => rfl
      | cons c cs ih =>
        obtain rfl : c = [] := hs c (by simp)
        have := ih fun c' hc' => hs c' (by simp [hc'])
        simp [readExact, this]
    simp only [length_nil, readFrames, Protocol.read, hend]
    rfl
  | cons m ms ih =>
    obtain ⟨s', hread, hs'⟩ := read_message (hms m (by simp)) hs
    have hrest := ih (fun m' hm' => hms m' (by simp [hm'])) s' hs'
    rw [length_cons, readFrames, hread]
    simp only [Except.bind, hrest]
    rfl

/-- Four messages in five pieces. -/
theorem Protocol.read_serialized_four :
    (Protocol.mk (some 12)).readFrames 5
        [[0, 0], [0, 5, 4, 0, 0, 0, 7, 0, 0, 0], [0, 0, 0, 0, 3, 5, 0xff], [0xf0, 0, 0, 0, 10, 7, 0],
          [0, 0, 2, 0, 0, 64, 0, 42]] =
      .ok [.message (.have 7), .keepAlive, .message (.bitfield [0xff, 0xf0]),
        .message (.piece ⟨2, 16384, 1, [42]⟩), .eof] :=
  read_serialized ⟨some 12⟩
    [.have 7, .keepAlive, .bitfield [0xff, 0xf0], .piece ⟨2, 16384, 1, [42]⟩]
    (by
      simp only [forall_mem_cons, not_mem_nil, false_imp_iff, implies_true, and_true]
      refine ⟨⟨?_, ?_, ?_, ?_⟩, ⟨?_, ?_, ?_, ?_⟩, ⟨?_, ?_, ?_, ?_⟩, ⟨?_, ?_, ?_, ?_⟩⟩ <;>
        first | simp | decide) _ (by decide)

end BitRev.Wire
