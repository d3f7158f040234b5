import BitRev.Framework.Run
import BitRev.Mse.Endpoint
import BitRev.Mse.Exchange

/-!
# Two sides of an encrypted connection

The two sides of an MSE handshake over one connection, and after it the encrypted streams that they
have made of it, step by step and in any order.

What the initiator's handshake has read beyond the answer is handed to its stream as it came, also
when it is encrypted.
-/

namespace BitRev

open List Option Mse

abbrev MseSide := Endpoint MseError CryptoMethod

inductive Side where
  | initiator
  | responder

structure Duplex where
  initiator : MseSide
  responder : MseSide

namespace Duplex

def step (d : Duplex) : Side × EndAct MseError → Option Duplex
  | (.initiator, a) =>
    (d.initiator.step d.responder.sent a).map fun initiator => { d with initiator }
  | (.responder, a) =>
    (d.responder.step d.initiator.sent a).map fun responder => { d with responder }

end Duplex

namespace Meeting

open Dialog

def handOver (p : Dialog MseError HandshakeOutcome) :
    Dialog MseError (EncryptedStream × CryptoMethod) := do
  let out ← p
  pure (out.stream, out.selected)

/-- Both sides start their handshakes. -/
def start (m : Meeting) : Duplex where
  initiator := { phase := .of (handOver m.initiator) }
  responder := { phase := .of (handOver m.responder) }

/-- A read of the initiator's handshake takes no bytes that the responder has sent after its
handshake, unless plaintext is selected. -/
def InTime (m : Meeting) (d : Duplex) : Side × EndAct MseError → Prop
  | (.initiator, .shake n) =>
    d.initiator.phase.waiting →
      d.initiator.heard.length + n ≤ d.responder.shook ∨ m.select m.provide = some .plaintext
  | _ => True

instance (m : Meeting) (d : Duplex) (a : Side × EndAct MseError) : Decidable (m.InTime d a) := by
  unfold InTime
  split <;> infer_instance

/-! ## The roles of both sides -/

/-- The ciphers of what the initiator and the responder write after the handshake. -/
def streamA (m : Meeting) : Option Rc4 := if m.selected = .rc4 then some m.afterA else none
def streamB (m : Meeting) : Option Rc4 := if m.selected = .rc4 then some m.afterB else none

section

variable (m : Meeting)

lemma finishStream_initiator (pre : Bytes) :
    finishStream m.selected m.afterA m.afterB pre = ⟨m.streamA, m.streamB, pre, [], 0⟩ := by
  unfold streamA streamB
  cases m.selected <;> rfl

lemma finishStream_responder (pre : Bytes) :
    finishStream m.selected m.afterB m.afterA pre = ⟨m.streamB, m.streamA, pre, [], 0⟩ := by
  unfold streamA streamB
  cases m.selected <;> rfl

def initiatorRole : Role MseError CryptoMethod where
  line := { hears := Follows m.replies, sends := (· <+: m.requests), waits := fun _ => True }
  early h := h <+: m.replies ∨ m.select m.provide = some .plaintext
  outcome r i o := ∃ pre, i = m.replies ++ pre ∧ o = m.requests ∧
    r = (⟨m.streamA, m.streamB, pre, [], 0⟩, m.selected)
  handover info enc dec o h first := info = m.selected ∧ enc = m.streamA ∧ dec = m.streamB ∧
    o = m.requests ∧ h = m.replies ∧ first = []

/-- When the handshake of the responder waits for bytes, its answer was not sent. -/
def responderRole : Role MseError CryptoMethod where
  line :=
    { hears := Follows m.requests, sends := (· <+: m.replies), waits := (· <+: m.helloB) }
  early h := h <+: m.requests
  outcome r i o := ∃ pre, i = m.requests ++ pre ∧ o = m.replies ∧
    r = (⟨m.streamB, m.streamA, m.ia ++ pre, [], 0⟩, m.selected)
  handover info enc dec o h first := info = m.selected ∧ enc = m.streamB ∧ dec = m.streamA ∧
    o = m.replies ∧ h = m.requests ∧ first = m.ia

lemma eq_nil_of_append_prefix {t pre : Bytes} (h : t ++ pre <+: t) : pre = [] := by
  have hlen := h.length_le
  rw [length_append] at hlen
  exact eq_nil_of_length_eq_zero (by omega)

lemma initiatorRole_sound : m.initiatorRole.Sound := by
  refine ⟨fun hp h => hp.trans h, fun {st info i o} hout hearly => ?_⟩
  obtain ⟨pre, rfl, rfl, hst⟩ := hout
  cases hst
  refine ⟨_, _, _, _, ⟨rfl, rfl, rfl, rfl, rfl, rfl⟩, .fresh, ?_⟩
  rcases hearly with hp | hplain
  · -- nothing was read too far
    obtain rfl := eq_nil_of_append_prefix hp
    rw [append_nil]
    exact .fresh
  · -- what was read too far is not encrypted
    have hnone : m.streamB = none := by simp [streamB, selected, hplain]
    rw [hnone]
    exact ⟨prefix_append _ _, by simp [cryptWith], rfl⟩

lemma responderRole_sound : m.responderRole.Sound := by
  refine ⟨fun hp h => hp.trans h, fun {st info i o} hout hearly => ?_⟩
  obtain ⟨pre, rfl, rfl, hst⟩ := hout
  cases hst
  obtain rfl := eq_nil_of_append_prefix hearly
  refine ⟨_, _, _, _, ⟨rfl, rfl, rfl, rfl, rfl, rfl⟩, .fresh, ?_⟩
  rw [append_nil, append_nil]
  exact .fresh

lemma helloB_length_lt : m.helloB.length < m.replies.length := by
  have hlen : m.replies.length = m.helloB.length + m.answered.length := by
    rw [replies, length_append, StreamCipher.length_crypt]
  have hvc : 0 < m.answered.length := by
    simp [answered, answer, vc, vcLen]
  omega

/-- What the responder's handshake has sent is a part of what it is to send. -/
lemma shook_le {e : MseSide} (h : Plays m.responderRole e) : e.shook ≤ m.replies.length := by
  cases h with
  | shaking _ _ _ sends _ _ _ _ shook | failed _ _ sends shook => exact shook ▸ sends.length_le
  | established _ _ _ _ _ o _ _ handover _ _ shook =>
    obtain ⟨-, -, -, rfl, -⟩ := handover
    exact le_of_eq shook

lemma responder_follows {e : MseSide} (h : Plays m.responderRole e) : Follows m.replies e.sent := by
  cases h with
  | shaking _ _ _ sends | failed _ _ sends => exact .inl sends
  | established _ _ _ _ _ o _ _ handover writes =>
    obtain ⟨-, -, -, rfl, -⟩ := handover
    exact .inr writes.started

lemma initiator_sent {e : MseSide} (h : Plays m.initiatorRole e)
    (hheard : ¬m.replies <+: e.heard) : e.sent <+: m.requests := by
  cases h with
  | shaking _ _ _ sends | failed _ _ sends => exact sends
  | established _ _ _ _ _ _ h _ handover _ reads =>
    obtain ⟨-, -, -, -, rfl, -⟩ := handover
    exact absurd reads.started hheard

end

structure Holds (m : Meeting) (d : Duplex) : Prop where
  initiator : Plays m.initiatorRole d.initiator
  responder : Plays m.responderRole d.responder
  heardA : d.initiator.heard <+: d.responder.sent
  heardB : d.responder.heard <+: d.initiator.sent

variable {m : Meeting}

lemma holds_start (hok : m.Ok) (hia : m.ia.length ≤ maxIa) : m.Holds m.start where
  initiator := by
    refine .start m.initiatorRole_sound (meets_bind ?_) nil_prefix (.inl nil_prefix)
    refine meets_mono (fun out i o h => meets_pure ?_)
      (initiator_meets hok (fun _ h => h) (fun _ h => h) fun _ => trivial)
    obtain ⟨pre, rfl, rfl, rfl⟩ := h
    exact ⟨pre, rfl, rfl, by rw [finishStream_initiator]⟩
  responder := by
    refine .start m.responderRole_sound (meets_bind ?_) nil_prefix nil_prefix
    refine meets_mono (fun out i o h => meets_pure ?_)
      (responder_meets hok hia (fun _ h => h) (fun _ h => h) fun _ h => h)
    obtain ⟨-, pre, rfl, rfl, rfl⟩ := h
    exact ⟨pre, rfl, rfl, by rw [finishStream_responder]⟩
  heardA := nil_prefix
  heardB := nil_prefix

lemma follows_of_prefix {t h arrived : Bytes} (hf : Follows t arrived) (hp : h <+: arrived) :
    Follows t h := by
  obtain ⟨rest, rfl⟩ := hp
  exact hf.append_left

lemma Holds.step {d d' : Duplex} {a : Side × EndAct MseError} (h : m.Holds d) (hin : m.InTime d a)
    (hstep : d.step a = some d') : m.Holds d' := by
  obtain ⟨side, a⟩ := a
  cases side with
  | initiator =>
    obtain ⟨e', he', rfl⟩ := map_eq_some_iff.1 hstep
    have hcase := Endpoint.step_cases h.heardA he'
    obtain ⟨hsent, hheard⟩ := hcase.bytes h.heardA
    refine ⟨h.initiator.step m.initiatorRole_sound ?_ hcase, h.responder, hheard,
      h.heardB.trans hsent⟩
    rintro n chunk rfl hlen hwait hcomes -
    have hfollows : Follows m.replies (d.initiator.heard ++ chunk) :=
      follows_of_prefix (m.responder_follows h.responder) hcomes
    refine ⟨hfollows, (hin hwait).imp (fun hle => ?_) id⟩
    have hshook : d.responder.shook ≤ m.replies.length := m.shook_le h.responder
    have htake := hfollows.take (by rw [length_append]; omega)
    exact htake ▸ take_prefix _ _
  | responder =>
    obtain ⟨e', he', rfl⟩ := map_eq_some_iff.1 hstep
    have hcase := Endpoint.step_cases h.heardB he'
    obtain ⟨hsent, hheard⟩ := hcase.bytes h.heardB
    refine ⟨h.initiator, h.responder.step m.responderRole_sound ?_ hcase,
      h.heardA.trans hsent, hheard⟩
    rintro n chunk - - - hcomes hwaits
    -- the answer was not sent, so the initiator has not come to the end of its handshake
    have hanswer : ¬m.replies <+: d.initiator.heard := fun hp =>
      absurd (hp.trans (h.heardA.trans hwaits)).length_le (by have := m.helloB_length_lt; omega)
    have hp : d.responder.heard ++ chunk <+: m.requests :=
      hcomes.trans (m.initiator_sent h.initiator hanswer)
    exact ⟨.inl hp, hp⟩

end Meeting

namespace Duplex

/-- The reader of a stream gets `first` and then what the other side writes to its own, no more and
no less once nothing is on the way. -/
def Delivers (first : Bytes) (writer reader : MseSide) (w r : EncryptedStream) : Prop :=
  reader.got <+: first ++ (writer.wrote ++ writer.writing) ∧
    (r.unread = [] → reader.heard = writer.sent → w.writePending = [] → writer.writing = [] →
      reader.got = first ++ writer.wrote)

/-- Whatever the paddings, the keys and the initial payload, and however the bytes of both
directions are split into reads: once both handshakes have succeeded, the responder reads the
initial payload and what the initiator writes, and the initiator what the responder writes. -/
theorem exchanged (m : Meeting) (hok : m.Ok) (hia : m.ia.length ≤ maxIa)
    (as : List (Side × EndAct MseError)) (d : Duplex) (hrun : Run step m.InTime m.start as d)
    (streamA streamB : EncryptedStream) (selA selB : CryptoMethod)
    (hA : d.initiator.phase = .established streamA selA)
    (hB : d.responder.phase = .established streamB selB) :
    Delivers m.ia d.initiator d.responder streamA streamB ∧
      Delivers [] d.responder d.initiator streamB streamA ∧ selA = selB := by
  have hd : m.Holds d :=
    hrun.inv Meeting.Holds.step (Meeting.holds_start hok hia)
  obtain ⟨_, _, _, _, _, ⟨hselA, rfl, rfl, rfl, rfl, rfl⟩, hwA, hrA⟩ := hd.initiator.handed hA
  obtain ⟨_, _, _, _, _, ⟨hselB, rfl, rfl, rfl, rfl, rfl⟩, hwB, hrB⟩ := hd.responder.handed hB
  exact ⟨hrB.received hwA hd.heardB, hrA.received hwB hd.heardA, hselA.trans hselB.symm⟩

/-- A meeting without paddings, with a payload of three bytes. -/
def sampleMeeting : Meeting where
  sha1 bytes := BitVec.ofNat 160 (beToNat (bytes.take 4))
  keysA := ⟨List.replicate 96 1, fun _ => [7], by decide⟩
  keysB := ⟨List.replicate 96 2, fun _ => [7], by decide⟩
  padA := ⟨[], by decide⟩
  padB := ⟨[], by decide⟩
  padC := ⟨[], by decide⟩
  padD := ⟨[], by decide⟩
  skey := 5
  provide := cryptoPlaintext ||| cryptoRc4
  ia := [1, 2, 3]
  allowPlaintext := true
  known := [5]
  select := EncryptionPolicy.select .preferEncrypted

lemma sampleMeeting_ok : sampleMeeting.Ok where
  secret := rfl
  known := by decide
  unique := by simp [sampleMeeting]
  syncA _ hk := absurd hk (Nat.not_lt_zero _)
  syncB _ hk := absurd hk (Nat.not_lt_zero _)

/-- Both handshakes, up to the answer, which the initiator has not read. -/
def sampleShakes : List (Side × EndAct MseError) :=
  [(.initiator, .shake 0), (.initiator, .shake 0), (.responder, .shake 96),
    (.responder, .shake 0), (.responder, .shake 0), (.initiator, .shake 20),
    (.initiator, .shake 76), (.initiator, .shake 0), (.responder, .shake 59),
    (.responder, .shake 0)]

/-- Each side writes and the other reads, also the initial payload. -/
def sampleTalk : List (Side × EndAct MseError) :=
  sampleShakes ++ [(.initiator, .shake 14), (.initiator, .write [8]), (.initiator, .poll [0]),
    (.responder, .write [9, 9]), (.responder, .poll [5]), (.initiator, .read 10 2),
    (.responder, .read 10 0), (.responder, .read 10 1)]

/-- What both sides have selected, what they have written, and what they have read. -/
def observed (d : Duplex) : List (Option CryptoMethod) × List Bytes × List Bytes :=
  ([d.initiator.phase.info, d.responder.phase.info],
    [d.initiator.wrote, d.responder.wrote], [d.initiator.got, d.responder.got])

theorem exchanged_sample : ∃ (d : Duplex) (streamA streamB : EncryptedStream),
    Run step sampleMeeting.InTime sampleMeeting.start sampleTalk d ∧
      d.responder.got = [1, 2, 3, 8] ∧ d.initiator.got = [9, 9] ∧
      Delivers [1, 2, 3] d.initiator d.responder streamA streamB ∧
      Delivers [] d.responder d.initiator streamB streamA := by
  have hexec : (exec step sampleMeeting.InTime sampleMeeting.start sampleTalk).map observed =
      some ([some .rc4, some .rc4], [[8], [9, 9]], [[9, 9], [1, 2, 3, 8]]) := by
    decide +kernel
  obtain ⟨d, hd, hobs⟩ := map_eq_some_iff.1 hexec
  simp only [observed, Prod.mk.injEq, cons.injEq, and_true] at hobs
  obtain ⟨⟨hselA, hselB⟩, -, hgotA, hgotB⟩ := hobs
  obtain ⟨streamA, hA⟩ := Phase.established_of_info hselA
  obtain ⟨streamB, hB⟩ := Phase.established_of_info hselB
  have hall := exchanged sampleMeeting sampleMeeting_ok (by decide) _ d (.of_exec hd) streamA streamB
    _ _ hA hB
  exact ⟨d, streamA, streamB, .of_exec hd, hgotB, hgotA, hall.1, hall.2.1⟩

/-- The responder writes right after its answer, and the initiator's handshake reads both at once. -/
def readAtOnce : List (Side × EndAct MseError) :=
  sampleShakes ++ [(.responder, .write [9, 9]), (.responder, .poll [5]),
    (.initiator, .shake 16), (.initiator, .read 10 0)]

/-- What the initiator then reads from its stream is not what was written. -/
theorem read_too_far : sampleMeeting.Ok ∧ ∃ (d : Duplex) (streamA streamB : EncryptedStream),
    Run step anyStep sampleMeeting.start readAtOnce d ∧
      d.initiator.phase = .established streamA .rc4 ∧
      d.responder.phase = .established streamB .rc4 ∧
      d.responder.wrote = [9, 9] ∧ d.initiator.got = [30, 96] := by
  have hexec : (exec step anyStep sampleMeeting.start readAtOnce).map observed =
      some ([some .rc4, some .rc4], [[], [9, 9]], [[30, 96], []]) := by
    decide +kernel
  obtain ⟨d, hd, hobs⟩ := map_eq_some_iff.1 hexec
  simp only [observed, Prod.mk.injEq, cons.injEq, and_true] at hobs
  obtain ⟨⟨hselA, hselB⟩, ⟨-, hwrote⟩, hgot, -⟩ := hobs
  obtain ⟨streamA, hA⟩ := Phase.established_of_info hselA
  obtain ⟨streamB, hB⟩ := Phase.established_of_info hselB
  exact ⟨sampleMeeting_ok, d, streamA, streamB, .of_exec hd, hA, hB, hwrote, hgot⟩

end Duplex

end BitRev
