import BitRev.Mse.Rc4

/-!
# Encrypted streams

`EncryptedStream` (`mse/stream.rs`): what MSE leaves after its handshake. The ciphers are `none` if
plaintext was selected. Bytes that the handshake has read too far come first, as they are.

The stream below is given by what its calls return: the bytes of a read, and for the writes how
many bytes each of them takes before one is not ready. A failed call ends the connection and is
left out.
-/

namespace BitRev

open List

structure EncryptedStream where
  enc : Option Rc4
  dec : Option Rc4
  /-- `prefix`, from its cursor on. -/
  unread : Bytes
  writePending : Bytes := []
  writeSrcLen : Nat := 0

/-- What a cipher makes of a buffer, if there is one. -/
def cryptWith (c : Option Rc4) (buf : Bytes) : Bytes :=
  match c with
  | none => buf
  | some c => c.crypt buf

/-- The cipher `n` bytes later, if there is one. -/
def skipWith (c : Option Rc4) (n : Nat) : Option Rc4 := c.map (·.skip n)

/-- The writes of pending bytes, each of which takes one byte more than its entry in `sizes`: what is
written, what stays pending, and the sizes that are left. -/
def flushPending : List Nat → Bytes → Bytes × Bytes × List Nat
  | sizes, [] => ([], [], sizes)
  | [], pending => ([], pending, [])
  | n :: sizes, pending =>
    let (written, rest) := flushPending sizes (pending.drop (n + 1))
    (pending.take (n + 1) ++ written, rest)

namespace EncryptedStream

/-- `poll_read` of at most `capacity` bytes: a part of the prefix, or what `inner`, the bytes that
the stream below has given, decrypts to. -/
def pollRead (st : EncryptedStream) (capacity : Nat) (inner : Bytes) : Bytes × EncryptedStream :=
  if st.unread ≠ [] then
    (st.unread.take capacity, { st with unread := st.unread.drop capacity })
  else (cryptWith st.dec inner, { st with dec := skipWith st.dec inner.length })

/-- `poll_write`: how many bytes of `buf` it has taken (`none` if it is not ready), the stream after
it and what it has written. -/
def pollWrite (st : EncryptedStream) (buf : Bytes) (sizes : List Nat) :
    Option Nat × EncryptedStream × Bytes :=
  let (written, pending, sizes) := flushPending sizes st.writePending
  let st := { st with writePending := pending }
  if pending ≠ [] then (none, st, written)
  else if 0 < st.writeSrcLen then (some st.writeSrcLen, { st with writeSrcLen := 0 }, written)
  else if buf = [] then (some 0, st, written)
  else
    match st.enc with
    | some enc =>
      let (written', pending, _) := flushPending sizes (enc.crypt buf)
      let st := { st with enc := some (enc.skip buf.length), writePending := pending }
      if pending = [] then (some buf.length, { st with writeSrcLen := 0 }, written ++ written')
      else (none, { st with writeSrcLen := buf.length }, written ++ written')
    | none =>
      match sizes with
      | [] => (none, st, written)
      | n :: _ => (some (min (n + 1) buf.length), st, written ++ buf.take (n + 1))

end EncryptedStream

/-! ## One direction of a stream -/

section

variable (c : Option Rc4)

@[simp] lemma cryptWith_nil : cryptWith c [] = [] := by cases c <;> rfl

lemma cryptWith_append (as bs : Bytes) :
    cryptWith c (as ++ bs) = cryptWith c as ++ cryptWith (skipWith c as.length) bs := by
  cases c with
  | none => rfl
  | some c => exact StreamCipher.crypt_append as bs

lemma cryptWith_cryptWith (buf : Bytes) : cryptWith c (cryptWith c buf) = buf := by
  cases c with
  | none => rfl
  | some c => exact StreamCipher.crypt_crypt buf

lemma cryptWith_take (buf : Bytes) (n : Nat) :
    (cryptWith c buf).take n = cryptWith c (buf.take n) := by
  cases c with
  | none => rfl
  | some c => exact StreamCipher.crypt_take buf n

lemma skipWith_add (m n : Nat) : skipWith c (m + n) = skipWith (skipWith c m) n := by
  cases c with
  | none => rfl
  | some c => exact congrArg some (StreamCipher.skip_add m n)

end

lemma flushPending_append (sizes : List Nat) (pending : Bytes) :
    (flushPending sizes pending).1 ++ (flushPending sizes pending).2.1 = pending := by
  induction sizes generalizing pending with
  | nil => cases pending <;> rfl
  | cons n sizes ih =>
    cases pending with
    | nil => rfl
    | cons b pending =>
      have := ih ((b :: pending).drop (n + 1))
      simp only [flushPending, append_assoc]
      rw [this, take_append_drop]

@[simp] lemma flushPending_nil (sizes : List Nat) : flushPending sizes [] = ([], [], sizes) := by
  cases sizes <;> rfl

namespace EncryptedStream

/-- What a stream has `sent` since the handshake has sent `base` and left the cipher `c`: all that
it has taken (`wrote`), and if the write of a buffer was not ready, that one too; what is pending
was not sent yet. -/
structure Writes (c : Option Rc4) (base : Bytes) (st : EncryptedStream)
    (sent wrote writing : Bytes) : Prop where
  started : base <+: sent
  wire : sent ++ st.writePending = base ++ cryptWith c (wrote ++ writing.take st.writeSrcLen)
  enc : st.enc = skipWith c (wrote.length + st.writeSrcLen)
  idle : st.writeSrcLen = 0 → st.writePending = []
  busy : st.writeSrcLen = 0 ∨ st.writeSrcLen = writing.length

section

variable {c : Option Rc4} {base sent wrote writing : Bytes} {st : EncryptedStream}

lemma Writes.fresh {c : Option Rc4} {base unread : Bytes} {dec : Option Rc4} :
    Writes c base ⟨c, dec, unread, [], 0⟩ base [] [] :=
  ⟨prefix_refl _, by simp, by cases c <;> rfl, fun _ => rfl, .inl rfl⟩

/-- A new buffer is written. -/
lemma Writes.next (h : Writes c base st sent wrote []) (buf : Bytes) :
    Writes c base st sent wrote buf := by
  have hsrc : st.writeSrcLen = 0 := by simpa using h.busy
  exact ⟨h.started, by simpa [hsrc] using h.wire, h.enc, h.idle, .inl hsrc⟩

/-- While a buffer is being written, no other is taken. -/
lemma pollWrite_busy (hsrc : 0 < st.writeSrcLen) (buf : Bytes) (sizes : List Nat) :
    st.pollWrite buf sizes =
      let f := flushPending sizes st.writePending
      if f.2.1 = [] then
        (some st.writeSrcLen, { st with writePending := [], writeSrcLen := 0 }, f.1)
      else (none, { st with writePending := f.2.1 }, f.1) := by
  unfold pollWrite
  by_cases hf : (flushPending sizes st.writePending).2.1 = []
  · simp [hf, hsrc]
  · simp [hf]

lemma pollWrite_idle (hsrc : st.writeSrcLen = 0) (hp : st.writePending = []) {buf : Bytes}
    (hne : buf ≠ []) (sizes : List Nat) :
    st.pollWrite buf sizes =
      match st.enc with
      | some enc =>
        let f := flushPending sizes (enc.crypt buf)
        let st := { st with enc := some (enc.skip buf.length), writePending := f.2.1 }
        if f.2.1 = [] then (some buf.length, st, f.1)
        else (none, { st with writeSrcLen := buf.length }, f.1)
      | none =>
        match sizes with
        | [] => (none, st, [])
        | n :: _ => (some (min (n + 1) buf.length), st, buf.take (n + 1)) := by
  obtain ⟨enc, dec, unread, writePending, writeSrcLen⟩ := st
  obtain rfl : writePending = [] := hp
  obtain rfl : writeSrcLen = 0 := hsrc
  cases enc with
  | none => cases sizes <;> simp [pollWrite, hne]
  | some enc => simp [pollWrite, hne]

lemma Writes.poll (h : Writes c base st sent wrote writing) (hne : writing ≠ [])
    (sizes : List Nat) :
    let r := st.pollWrite writing sizes
    Writes c base r.2.1 (sent ++ r.2.2) (wrote ++ writing.take (r.1.getD 0))
      (writing.drop (r.1.getD 0)) := by
  have hstart : ∀ more, base <+: sent ++ more :=
    fun more => h.started.trans (prefix_append _ _)
  rcases Nat.eq_zero_or_pos st.writeSrcLen with hsrc | hsrc
  · -- a new buffer is taken
    have hpending := h.idle hsrc
    have hsent : sent = base ++ cryptWith c wrote := by simpa [hsrc, hpending] using h.wire
    have henc : st.enc = skipWith c wrote.length := by simpa [hsrc] using h.enc
    rw [pollWrite_idle hsrc hpending hne]
    cases hst : st.enc with
    | none =>
      obtain rfl : c = none := by simpa [skipWith] using henc.symm.trans hst
      cases sizes with
      | nil =>
        exact ⟨hstart _, by simpa using h.wire, by simpa using h.enc, h.idle, by simpa using h.busy⟩
      | cons n sizes =>
        refine ⟨hstart _, ?_, ?_, h.idle, .inl hsrc⟩
        · simp [hsent, hpending, hsrc, cryptWith]
        · simp [hst, skipWith]
    | some enc =>
      obtain ⟨enc₀, rfl, rfl⟩ : ∃ enc₀, c = some enc₀ ∧ enc₀.skip wrote.length = enc := by
        simpa [skipWith] using henc.symm.trans hst
      have hflush := flushPending_append sizes ((enc₀.skip wrote.length).crypt writing)
      have hskip := skipWith_add (some enc₀) wrote.length writing.length
      have hcrypt := cryptWith_append (some enc₀) wrote writing
      simp only [cryptWith, skipWith, Option.map_some] at hskip hcrypt
      dsimp only
      split
      · rename_i hdone
        rw [hdone, append_nil] at hflush
        refine ⟨hstart _, ?_, ?_, fun _ => hdone, .inl hsrc⟩
        · simp [hdone, hsent, hsrc, hflush, cryptWith, hcrypt]
        · simp [hsrc, skipWith, hskip]
      · refine ⟨hstart _, ?_, ?_, fun h0 => ?_, .inr ?_⟩
        · simp [hsent, hflush, cryptWith, hcrypt]
        · simp [skipWith, hskip]
        · exact absurd (length_eq_zero_iff.1 h0) hne
        · simp
  · -- the buffer that was taken before is sent
    have hflush := flushPending_append sizes st.writePending
    have hall : st.writeSrcLen = writing.length := h.busy.resolve_left (ne_of_gt hsrc)
    rw [pollWrite_busy hsrc]
    dsimp only
    split
    · rename_i hdone
      rw [hdone, append_nil] at hflush
      refine ⟨hstart _, ?_, ?_, fun _ => rfl, .inl rfl⟩
      · simpa [hflush, hall] using h.wire
      · simpa [hall] using h.enc
    · refine ⟨hstart _, ?_, by simpa using h.enc, fun h0 => ?_, by simpa using h.busy⟩
      · simpa [hflush] using h.wire
      · exact absurd h0 (ne_of_gt hsrc)

/-- What a reader of the stream has `got`, and what it has not read yet, since the handshake has
read `base` and left the cipher `c` and the bytes `pre`. -/
structure Reads (c : Option Rc4) (base pre : Bytes) (st : EncryptedStream) (heard got : Bytes) :
    Prop where
  started : base <+: heard
  gives : got ++ st.unread = pre ++ cryptWith c (heard.drop base.length)
  dec : st.dec = skipWith c (heard.length - base.length)

lemma Reads.fresh {pre : Bytes} {enc : Option Rc4} : Reads c base pre ⟨enc, c, pre, [], 0⟩ base [] :=
  ⟨prefix_refl _, by simp, by cases c <;> simp [skipWith, StreamCipher.skip]⟩

lemma Reads.pollUnread {pre heard got : Bytes} (h : Reads c base pre st heard got)
    (hne : st.unread ≠ []) (capacity : Nat) (inner : Bytes) :
    Reads c base pre (st.pollRead capacity inner).2 heard
      (got ++ (st.pollRead capacity inner).1) := by
  unfold pollRead
  rw [if_pos hne]
  exact ⟨h.started, by simpa using h.gives, h.dec⟩

lemma Reads.pollInner {pre heard got : Bytes} (h : Reads c base pre st heard got)
    (hnil : st.unread = []) (capacity : Nat) (inner : Bytes) :
    Reads c base pre (st.pollRead capacity inner).2 (heard ++ inner)
      (got ++ (st.pollRead capacity inner).1) := by
  obtain ⟨rx, rfl⟩ := h.started
  have hgot : got = pre ++ cryptWith c rx := by simpa [hnil] using h.gives
  have hdec : st.dec = skipWith c rx.length := by simpa using h.dec
  unfold pollRead
  rw [if_neg (by simp [hnil])]
  refine ⟨by simp, ?_, ?_⟩
  · simp [hgot, hnil, hdec, cryptWith_append]
  · simp [hdec, ← skipWith_add]

/-- What a reader gets is what the writer at the other end writes, after the bytes `pre`. -/
lemma Reads.received {pre heard got : Bytes} {w : EncryptedStream}
    (hr : Reads c base pre st heard got) (hw : Writes c base w sent wrote writing)
    (hp : heard <+: sent) :
    got <+: pre ++ (wrote ++ writing) ∧
      (st.unread = [] → heard = sent → w.writePending = [] → writing = [] → got = pre ++ wrote) := by
  obtain ⟨rx, rfl⟩ := hr.started
  have hgives : got ++ st.unread = pre ++ cryptWith c rx := by simpa using hr.gives
  obtain ⟨sx, rfl⟩ : base <+: sent := (prefix_append base rx).trans hp
  have hwire : sx ++ w.writePending = cryptWith c (wrote ++ writing.take w.writeSrcLen) := by
    simpa using hw.wire
  constructor
  · have hrx : rx <+: cryptWith c (wrote ++ writing.take w.writeSrcLen) :=
      ((prefix_append_right_inj base).1 hp).trans (hwire ▸ prefix_append _ _)
    have hplain : cryptWith c rx <+: wrote ++ writing.take w.writeSrcLen := by
      rw [prefix_iff_eq_take.1 hrx, cryptWith_take, cryptWith_cryptWith]
      exact take_prefix _ _
    have hall : wrote ++ writing.take w.writeSrcLen <+: wrote ++ writing :=
      (prefix_append_right_inj wrote).2 (List.take_prefix _ _)
    have hgot : got <+: pre ++ cryptWith c rx := hgives ▸ prefix_append _ _
    exact hgot.trans ((prefix_append_right_inj pre).2 (hplain.trans hall))
  · intro hunread heq hpending hnil
    subst hnil
    obtain rfl : rx = sx := append_cancel_left heq
    rw [hpending, append_nil, take_nil, append_nil] at hwire
    rwa [hunread, append_nil, hwire, cryptWith_cryptWith] at hgives

end

end EncryptedStream

end BitRev
