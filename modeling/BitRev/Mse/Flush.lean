import BitRev.Framework.Run
import BitRev.Mse.Stream

/-!
# Flushing an encrypted stream

A buffer is encrypted when it is taken, and reported as written when the last of it was sent. A
flush in between that sends the rest forgets that the buffer was taken, and the caller's retry
sends it again (`flushed_twice`); without such a flush each byte is sent once (`sent_once`).
-/

namespace BitRev

namespace EncryptedStream

/-- `poll_flush`: whether it is ready, the stream after it and what it has written. `flushed` is the
answer of the stream below. -/
def pollFlush (st : EncryptedStream) (sizes : List Nat) (flushed : Bool) :
    Bool × EncryptedStream × Bytes :=
  let (written, pending, _) := flushPending sizes st.writePending
  if pending = [] then (flushed, { st with writePending := [], writeSrcLen := 0 }, written)
  else (false, { st with writePending := pending }, written)

def pollShutdown (st : EncryptedStream) (sizes : List Nat) (flushed closed : Bool) :
    Bool × EncryptedStream × Bytes :=
  let (ready, st, written) := st.pollFlush sizes flushed
  (ready && closed, st, written)

end EncryptedStream

inductive WriterAct where
  | write (buf : Bytes) (sizes : List Nat)
  | flush (sizes : List Nat) (flushed : Bool)
  | shutdown (sizes : List Nat) (flushed closed : Bool)

/-- A stream, what it has given to the stream below, what its caller knows to be written, and the
buffer whose write is pending. -/
structure Writer where
  stream : EncryptedStream
  sent : Bytes := []
  wrote : Bytes := []
  writing : Bytes := []

namespace Writer

def step (w : Writer) : WriterAct → Option Writer
  | .write buf sizes =>
    -- a pending write is retried before another buffer is written
    if w.writing = [] ∨ w.writing = buf then
      let (taken, stream, written) := w.stream.pollWrite buf sizes
      some ⟨stream, w.sent ++ written, w.wrote ++ buf.take (taken.getD 0), buf.drop (taken.getD 0)⟩
    else none
  | .flush sizes flushed =>
    let (_, stream, written) := w.stream.pollFlush sizes flushed
    some { w with stream, sent := w.sent ++ written }
  | .shutdown sizes flushed closed =>
    let (_, stream, written) := w.stream.pollShutdown sizes flushed closed
    some { w with stream, sent := w.sent ++ written }

/-- A flush does not get through while a write is pending. -/
def Waits (w : Writer) : WriterAct → Prop
  | .write .. => True
  | .flush sizes _ | .shutdown sizes _ _ =>
    w.writing = [] ∨ (flushPending sizes w.stream.writePending).2.1 ≠ []

def start (c : Option Rc4) (unread : Bytes) : Writer := ⟨⟨c, c, unread, [], 0⟩, [], [], []⟩

variable {c : Option Rc4} {w w' : Writer}

def Inv (c : Option Rc4) (w : Writer) : Prop :=
  EncryptedStream.Writes c [] w.stream w.sent w.wrote w.writing

lemma Inv.pollFlush (h : w.Inv c) {sizes : List Nat} {flushed : Bool}
    (hw : w.writing = [] ∨ (flushPending sizes w.stream.writePending).2.1 ≠ []) :
    EncryptedStream.Writes c [] (w.stream.pollFlush sizes flushed).2.1
      (w.sent ++ (w.stream.pollFlush sizes flushed).2.2) w.wrote w.writing := by
  have hflush := flushPending_append sizes w.stream.writePending
  have hstart : ∀ more, [] <+: w.sent ++ more := fun more => List.nil_prefix
  unfold EncryptedStream.pollFlush
  dsimp only
  split
  · -- nothing is pending, for no write is
    rename_i hdone
    have hidle : w.writing = [] := hw.resolve_right (not_not.2 hdone)
    have hsrc : w.stream.writeSrcLen = 0 := by simpa [hidle] using h.busy
    have hpending := h.idle hsrc
    refine ⟨hstart _, ?_, ?_, fun _ => rfl, .inl rfl⟩
    · simpa [hpending, hsrc] using h.wire
    · simpa [hsrc] using h.enc
  · rename_i hrest
    refine ⟨hstart _, ?_, h.enc, fun h0 => ?_, h.busy⟩
    · simpa [hflush] using h.wire
    · simp [h.idle h0] at hrest

lemma Inv.step {a : WriterAct} (h : w.Inv c) (ha : w.Waits a) (hs : w.step a = some w') :
    w'.Inv c := by
  cases a with
  | write buf sizes =>
    obtain ⟨hbuf, hs⟩ := Option.ite_none_right_eq_some.1 hs
    cases hs
    have hwrites : EncryptedStream.Writes c [] w.stream w.sent w.wrote buf := by
      rcases hbuf with hnil | rfl
      · exact EncryptedStream.Writes.next (by simpa only [Inv, hnil] using h) buf
      · exact h
    cases buf with
    | nil =>
      have hsrc : w.stream.writeSrcLen = 0 := by simpa using hwrites.busy
      have hnone : w.stream.pollWrite [] sizes = (some 0, w.stream, []) := by
        have hpending := hwrites.idle hsrc
        cases hst : w.stream
        simp_all [EncryptedStream.pollWrite]
      change EncryptedStream.Writes c [] (w.stream.pollWrite [] sizes).2.1
        (w.sent ++ (w.stream.pollWrite [] sizes).2.2) _ _
      rw [hnone]
      simpa using hwrites
    | cons b buf => exact hwrites.poll (by simp) sizes
  | flush sizes flushed | shutdown sizes flushed closed =>
    cases hs
    exact h.pollFlush ha

/-- What the stream below is given decrypts to a prefix of what was written and the one buffer
whose write is pending, and to all that was written when none is. -/
theorem sent_once (c : Rc4) (unread : Bytes) (as : List WriterAct) (w : Writer)
    (hrun : Run step Waits (start c unread) as w) :
    c.crypt w.sent <+: w.wrote ++ w.writing ∧ (w.writing = [] → c.crypt w.sent = w.wrote) := by
  have hinv : w.Inv c := hrun.inv (fun h ha hs => h.step ha hs) .fresh
  -- a reader at the other end decrypts all that was sent
  have hfresh : EncryptedStream.Reads c [] [] ⟨none, c, [], [], 0⟩ [] [] := .fresh
  have hread := hfresh.pollInner rfl 0 w.sent
  obtain ⟨hpre, hall⟩ := hread.received hinv (List.prefix_refl _)
  refine ⟨hpre, fun hnil => hall rfl rfl (hinv.idle ?_) hnil⟩
  simpa [hnil] using hinv.busy

/-- Two bytes of which one is sent at once, and the other by the retry. -/
theorem sent_once_retry : ∃ w, Run step Waits (start (Rc4.new [1]) [])
      [.write [5, 6] [0], .flush [] true, .write [5, 6] [0]] w ∧
    (Rc4.new [1]).crypt w.sent <+: w.wrote ++ w.writing := by
  have hrun : Run step Waits (start (Rc4.new [1]) [])
      [.write [5, 6] [0], .flush [] true, .write [5, 6] [0]] _ :=
    .cons trivial rfl (.cons (.inr (by decide +kernel)) rfl (.cons trivial rfl (.nil _)))
  exact ⟨_, hrun, (sent_once _ _ _ _ hrun).1⟩

/-- A flush that gets through between a pending write and its retry: the buffer is sent twice. -/
theorem flushed_twice : ¬ ∀ (c : Rc4) (unread : Bytes) (as : List WriterAct) (w : Writer),
    Run step anyStep (start c unread) as w → c.crypt w.sent <+: w.wrote ++ w.writing := by
  intro h
  have hpre := h (Rc4.new [1]) [] [.write [5] [], .flush [0] true, .write [5] [0]] _
    .of_isSome
  exact absurd hpre (by decide +kernel)

end Writer

end BitRev
