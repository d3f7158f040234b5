import BitRev.Framework.Dialog
import BitRev.Mse.Stream

/-!
# One side of a connection

One side of a peer connection, step by step: a handshake that leaves a stream (`EncryptedStream`)
and what it has learned, and after it any writes to the stream and reads from it. The bytes of
the other side arrive in order; each read takes any number of those that have arrived.

`Plays r e`: the side keeps to its role, which says what its handshake may read and write and what
it hands over. `Plays.step` is the rule by which this is proved of every state of a connection: the
streams need no argument of their own.
-/

namespace BitRev

open List Option

inductive Phase (ε α : Type) where
  | shaking (p : Prog StreamCall StreamCall.Ans (Except ε (EncryptedStream × α)))
  | established (stream : EncryptedStream) (info : α)
  | failed (e : ε)

namespace Phase

variable {ε α : Type}

/-- A handshake goes on, or is over. -/
def of : Prog StreamCall StreamCall.Ans (Except ε (EncryptedStream × α)) → Phase ε α
  | .ret (.ok (stream, info)) => .established stream info
  | .ret (.error e) => .failed e
  | .call e k => .shaking (.call e k)

/-- The handshake waits for bytes. -/
def waiting : Phase ε α → Bool
  | .shaking (.call (.read _) _) => true
  | _ => false

/-- What an ended handshake has learned. -/
def info : Phase ε α → Option α
  | .established _ info => some info
  | _ => none

lemma established_of_info {phase : Phase ε α} {info : α} (h : phase.info = some info) :
    ∃ stream, phase = .established stream info := by
  cases phase with
  | shaking p | failed e => cases h
  | established stream info' =>
    cases h
    exact ⟨stream, rfl⟩

lemma of_cases (p : Prog StreamCall StreamCall.Ans (Except ε (EncryptedStream × α))) :
    (∃ stream info, p = .ret (.ok (stream, info)) ∧ of p = .established stream info) ∨
      (∃ e, p = .ret (.error e) ∧ of p = .failed e) ∨ of p = .shaking p := by
  cases p with
  | ret r =>
    cases r with
    | ok out => exact .inl ⟨out.1, out.2, rfl, rfl⟩
    | error e => exact .inr (.inl ⟨e, rfl, rfl⟩)
  | call e k => exact .inr (.inr rfl)

end Phase

structure Endpoint (ε α : Type) where
  phase : Phase ε α
  /-- What it has taken of the bytes that the other side has sent. -/
  heard : Bytes := []
  sent : Bytes := []
  /-- How many bytes its handshake has sent. -/
  shook : Nat := 0
  /-- What was written to the stream, and the buffer that is being written. -/
  wrote : Bytes := []
  writing : Bytes := []
  /-- What was read from the stream. -/
  got : Bytes := []

inductive EndAct (ε : Type) where
  /-- The handshake makes its next call; a read takes `n` bytes. -/
  | shake (n : Nat)
  /-- The handshake fails; of a write, `n` bytes were sent. -/
  | fail (e : ε) (n : Nat)
  /-- A buffer is to be written. -/
  | write (buf : Bytes)
  /-- The write of the buffer is polled. -/
  | poll (sizes : List Nat)
  /-- At most `capacity` bytes are read, of which `n` are taken from the connection. -/
  | read (capacity n : Nat)

namespace Endpoint

variable {ε α : Type} (e : Endpoint ε α)

def next (arrived : Bytes) (n : Nat) : Bytes := (arrived.drop e.heard.length).take n

def shake (arrived : Bytes) (n : Nat) : Option (Endpoint ε α) :=
  match e.phase with
  | .shaking (.call (.read want) k) =>
    if 0 < n ∧ n ≤ want ∧ e.heard.length + n ≤ arrived.length then
      some { e with
        phase := .of (k (e.next arrived n)), heard := e.heard ++ e.next arrived n }
    else none
  | .shaking (.call (.write bytes) k) =>
    some { e with
      phase := .of (k ()), sent := e.sent ++ bytes, shook := (e.sent ++ bytes).length }
  | _ => none

def fail (err : ε) (n : Nat) : Option (Endpoint ε α) :=
  match e.phase with
  | .shaking (.call (.read _) _) => some { e with phase := .failed err }
  | .shaking (.call (.write bytes) _) =>
    some { e with
      phase := .failed err, sent := e.sent ++ bytes.take n
      shook := (e.sent ++ bytes.take n).length }
  | _ => none

def poll (st : EncryptedStream) (info : α) (sizes : List Nat) : Endpoint ε α :=
  let (taken, stream, written) := st.pollWrite e.writing sizes
  { e with
    phase := .established stream info, sent := e.sent ++ written
    wrote := e.wrote ++ e.writing.take (taken.getD 0)
    writing := e.writing.drop (taken.getD 0) }

def read (st : EncryptedStream) (info : α) (capacity : Nat) (inner : Bytes) : Endpoint ε α :=
  let (bytes, stream) := st.pollRead capacity inner
  { e with
    phase := .established stream info, heard := e.heard ++ inner, got := e.got ++ bytes }

def step (arrived : Bytes) : EndAct ε → Option (Endpoint ε α)
  | .shake n => e.shake arrived n
  | .fail err n => e.fail err n
  | .write buf =>
    match e.phase with
    | .established .. => if e.writing = [] then some { e with writing := buf } else none
    | _ => none
  | .poll sizes =>
    match e.phase with
    | .established st info => if e.writing = [] then none else some (e.poll st info sizes)
    | _ => none
  | .read capacity n =>
    match e.phase with
    | .established st info =>
      if st.unread ≠ [] then some (e.read st info capacity [])
      else if n ≤ capacity ∧ e.heard.length + n ≤ arrived.length then
        some (e.read st info capacity (e.next arrived n))
      else none
    | _ => none

end Endpoint

/-! ## What one step does -/

namespace EncryptedStream

lemma Reads.pollWrite {c : Option Rc4} {base pre heard got : Bytes} {st : EncryptedStream}
    (h : Reads c base pre st heard got) (buf : Bytes) (sizes : List Nat) :
    Reads c base pre (st.pollWrite buf sizes).2.1 heard got := by
  have hkeeps : (st.pollWrite buf sizes).2.1.unread = st.unread ∧
      (st.pollWrite buf sizes).2.1.dec = st.dec := by
    unfold EncryptedStream.pollWrite
    grind
  exact ⟨h.started, by rw [hkeeps.1, h.gives], by rw [hkeeps.2, h.dec]⟩

lemma Writes.pollRead {c : Option Rc4} {base sent wrote writing : Bytes} {st : EncryptedStream}
    (h : Writes c base st sent wrote writing) (capacity : Nat) (inner : Bytes) :
    Writes c base (st.pollRead capacity inner).2 sent wrote writing := by
  unfold EncryptedStream.pollRead
  split
  · exact { h with }
  · exact { h with }

end EncryptedStream

namespace Endpoint

variable {ε α : Type}

/-- What a step of one side does. -/
inductive StepCase (e : Endpoint ε α) (arrived : Bytes) : EndAct ε → Endpoint ε α → Prop
  | hears (n want : Nat) (k : Bytes → Prog StreamCall StreamCall.Ans _) (chunk : Bytes)
      (phase : e.phase = .shaking (.call (.read want) k)) (len : chunk.length = n)
      (ne : chunk ≠ []) (le : n ≤ want) (comes : e.heard ++ chunk <+: arrived) :
      StepCase e arrived (.shake n) { e with phase := .of (k chunk), heard := e.heard ++ chunk }
  | sends (n : Nat) (bytes : Bytes) (k : Unit → Prog StreamCall StreamCall.Ans _)
      (phase : e.phase = .shaking (.call (.write bytes) k)) :
      StepCase e arrived (.shake n) { e with
        phase := .of (k ()), sent := e.sent ++ bytes, shook := (e.sent ++ bytes).length }
  | failsRead (err : ε) (n want : Nat) (k : Bytes → Prog StreamCall StreamCall.Ans _)
      (phase : e.phase = .shaking (.call (.read want) k)) :
      StepCase e arrived (.fail err n) { e with phase := .failed err }
  | failsWrite (err : ε) (n : Nat) (bytes : Bytes)
      (k : Unit → Prog StreamCall StreamCall.Ans _)
      (phase : e.phase = .shaking (.call (.write bytes) k)) :
      StepCase e arrived (.fail err n) { e with
        phase := .failed err, sent := e.sent ++ bytes.take n
        shook := (e.sent ++ bytes.take n).length }
  | writes (buf : Bytes) (st : EncryptedStream) (info : α) (phase : e.phase = .established st info)
      (idle : e.writing = []) : StepCase e arrived (.write buf) { e with writing := buf }
  | polls (sizes : List Nat) (st : EncryptedStream) (info : α)
      (phase : e.phase = .established st info) (busy : e.writing ≠ []) :
      StepCase e arrived (.poll sizes) (e.poll st info sizes)
  | reads (capacity n : Nat) (st : EncryptedStream) (info : α) (inner : Bytes)
      (phase : e.phase = .established st info) (comes : e.heard ++ inner <+: arrived)
      (turn : st.unread = [] ∨ inner = []) :
      StepCase e arrived (.read capacity n) (e.read st info capacity inner)

section

variable {e e' : Endpoint ε α} {arrived : Bytes} {a : EndAct ε}

lemma heard_next (h : e.heard <+: arrived) (n : Nat) : e.heard ++ e.next arrived n <+: arrived := by
  obtain ⟨rest, hrest⟩ := h
  rw [next, ← hrest, drop_left' rfl]
  exact (prefix_append_right_inj _).2 (List.take_prefix _ _)

lemma length_next {n : Nat} (h : e.heard.length + n ≤ arrived.length) :
    (e.next arrived n).length = n := by
  rw [next, length_take, length_drop]
  omega

lemma step_cases (hheard : e.heard <+: arrived) (h : e.step arrived a = some e') :
    StepCase e arrived a e' := by
  cases a with
  | shake n =>
    change e.shake arrived n = some e' at h
    unfold shake at h
    split at h
    · obtain ⟨⟨hpos, hle, hlen⟩, h⟩ := ite_none_right_eq_some.1 h
      cases h
      have hn := length_next hlen
      refine .hears n _ _ _ ‹_› hn (fun hnil => ?_) hle (heard_next hheard n)
      rw [hnil, length_nil] at hn
      omega
    · cases h
      exact .sends n _ _ ‹_›
    · cases h
  | fail err n =>
    change e.fail err n = some e' at h
    unfold fail at h
    split at h
    · cases h
      exact .failsRead err n _ _ ‹_›
    · cases h
      exact .failsWrite err n _ _ ‹_›
    · cases h
  | write buf =>
    dsimp only [step] at h
    split at h
    · obtain ⟨hidle, h⟩ := ite_none_right_eq_some.1 h
      cases h
      exact .writes buf _ _ ‹_› hidle
    · cases h
  | poll sizes =>
    dsimp only [step] at h
    split at h
    · obtain ⟨hbusy, h⟩ := ite_none_left_eq_some.1 h
      cases h
      exact .polls sizes _ _ ‹_› hbusy
    · cases h
  | read capacity n =>
    dsimp only [step] at h
    split at h
    · split at h
      · cases h
        exact .reads capacity n _ _ [] ‹_› (by simpa using hheard) (.inr rfl)
      · obtain ⟨-, h⟩ := ite_none_right_eq_some.1 h
        cases h
        exact .reads capacity n _ _ _ ‹_› (heard_next hheard n) (.inl (not_ne_iff.1 ‹_›))
    · cases h

lemma StepCase.bytes (hheard : e.heard <+: arrived) (h : StepCase e arrived a e') :
    e.sent <+: e'.sent ∧ e'.heard <+: arrived := by
  cases h with
  | hears n want k chunk _ _ _ _ comes | reads capacity n st info inner _ comes =>
    exact ⟨prefix_refl _, comes⟩
  | sends | failsWrite | polls => exact ⟨prefix_append _ _, hheard⟩
  | failsRead | writes => exact ⟨prefix_refl _, hheard⟩

/-- The streams of a side go on giving what was written to the other and sending what is written
to them. -/
lemma StepCase.established {st : EncryptedStream} {info : α} {c c' : Option Rc4}
    {base base' first : Bytes} (h : StepCase e arrived a e') (hst : e.phase = .established st info)
    (hw : EncryptedStream.Writes c base st e.sent e.wrote e.writing)
    (hr : EncryptedStream.Reads c' base' first st e.heard e.got) :
    ∃ st', e'.phase = .established st' info ∧
      EncryptedStream.Writes c base st' e'.sent e'.wrote e'.writing ∧
      EncryptedStream.Reads c' base' first st' e'.heard e'.got ∧ e'.shook = e.shook := by
  cases h with
  | hears n want k chunk phase | sends n bytes k phase | failsRead err n want k phase
  | failsWrite err n bytes k phase => cases phase.symm.trans hst
  | writes buf st₁ info₁ phase idle => exact ⟨st, hst, (idle ▸ hw).next buf, hr, rfl⟩
  | polls sizes st₁ info₁ phase busy =>
    cases phase.symm.trans hst
    exact ⟨_, rfl, hw.poll busy sizes, hr.pollWrite _ _, rfl⟩
  | reads capacity n st₁ info₁ inner phase _ turn =>
    cases phase.symm.trans hst
    refine ⟨_, rfl, hw.pollRead _ _, ?_, rfl⟩
    by_cases hnil : st.unread = []
    · exact hr.pollInner hnil capacity inner
    · obtain rfl := turn.resolve_left hnil
      have hread := hr.pollUnread hnil capacity []
      rw [← append_nil e.heard] at hread
      exact hread

lemma StepCase.not_failed (err : ε) (h : StepCase e arrived a e') : e.phase ≠ .failed err := by
  intro hphase
  cases h with
  | hears _ _ _ _ phase | sends _ _ _ phase | failsRead _ _ _ _ phase | failsWrite _ _ _ _ phase
  | writes _ _ _ phase | polls _ _ _ phase | reads _ _ _ _ _ phase => cases phase.symm.trans hphase

end

end Endpoint

/-! ## Roles -/

open Dialog

structure Role (ε α : Type) where
  line : Line
  /-- What its handshake may have read. -/
  early : Bytes → Prop
  outcome : EncryptedStream × α → Bytes → Bytes → Prop
  /-- What it hands over: what it has learned, the ciphers of both directions, what it has sent and
  read, and what is to be read from the stream first. -/
  handover : α → Option Rc4 → Option Rc4 → Bytes → Bytes → Bytes → Prop

structure Role.Sound {ε α : Type} (r : Role ε α) : Prop where
  part : ∀ {o o'}, o <+: o' → r.line.sends o' → r.line.sends o
  made : ∀ {st info i o}, r.outcome (st, info) i o → r.early i → ∃ enc dec h first,
    r.handover info enc dec o h first ∧ EncryptedStream.Writes enc o st o [] [] ∧
    EncryptedStream.Reads dec h first st i []

/-- A side that keeps to its role. -/
inductive Plays {ε α : Type} (r : Role ε α) (e : Endpoint ε α) : Prop
  | shaking (p : Dialog ε (EncryptedStream × α)) (phase : e.phase = .shaking p)
      (meets : Meets r.line p r.outcome e.heard e.sent) (sends : r.line.sends e.sent)
      (early : r.early e.heard) (wrote : e.wrote = []) (writing : e.writing = [])
      (got : e.got = []) (shook : e.shook = e.sent.length)
  | failed (err : ε) (phase : e.phase = .failed err) (sends : r.line.sends e.sent)
      (shook : e.shook = e.sent.length)
  | established (st : EncryptedStream) (info : α) (phase : e.phase = .established st info)
      (enc dec : Option Rc4) (o h first : Bytes) (handover : r.handover info enc dec o h first)
      (writes : EncryptedStream.Writes enc o st e.sent e.wrote e.writing)
      (reads : EncryptedStream.Reads dec h first st e.heard e.got) (shook : e.shook = o.length)

namespace Plays

variable {ε α : Type} {r : Role ε α} {e e' : Endpoint ε α} {arrived : Bytes} {a : EndAct ε}

lemma handed (h : Plays r e) {st : EncryptedStream} {info : α}
    (hphase : e.phase = .established st info) : ∃ enc dec o h first,
      r.handover info enc dec o h first ∧
      EncryptedStream.Writes enc o st e.sent e.wrote e.writing ∧
      EncryptedStream.Reads dec h first st e.heard e.got := by
  cases h with
  | shaking _ phase | failed _ phase => cases phase.symm.trans hphase
  | established _ _ phase enc dec o h first handover writes reads =>
    cases phase.symm.trans hphase
    exact ⟨enc, dec, o, h, first, handover, writes, reads⟩

/-- A handshake goes on, or has ended. -/
lemma of (hr : r.Sound) {p : Dialog ε (EncryptedStream × α)} (hphase : e.phase = .of p)
    (hmeets : Meets r.line p r.outcome e.heard e.sent) (hsends : r.line.sends e.sent)
    (hearly : r.early e.heard) (hwrote : e.wrote = []) (hwriting : e.writing = [])
    (hgot : e.got = []) (hshook : e.shook = e.sent.length) : Plays r e := by
  rcases Phase.of_cases p with ⟨st, info, rfl, hof⟩ | ⟨err, rfl, hof⟩ | hof
  · obtain ⟨enc, dec, h, first, hand, hw, hread⟩ := hr.made (hmeets (st, info) rfl) hearly
    refine .established st info (hphase.trans hof) enc dec _ h first hand ?_ ?_ hshook
    · rwa [hwrote, hwriting]
    · rwa [hgot]
  · exact .failed err (hphase.trans hof) hsends hshook
  · exact .shaking p (hphase.trans hof) hmeets hsends hearly hwrote hwriting hgot hshook

lemma start (hr : r.Sound) {p : Dialog ε (EncryptedStream × α)}
    (hmeets : Meets r.line p r.outcome [] []) (hsends : r.line.sends []) (hearly : r.early []) :
    Plays r { phase := .of p } :=
  .of hr (p := p) rfl hmeets hsends hearly rfl rfl rfl rfl

lemma step (hr : r.Sound)
    (hears : ∀ n chunk, a = .shake n → chunk.length = n → e.phase.waiting →
      e.heard ++ chunk <+: arrived → r.line.waits e.sent →
      r.line.hears (e.heard ++ chunk) ∧ r.early (e.heard ++ chunk))
    (h : Plays r e) (hstep : e.StepCase arrived a e') : Plays r e' := by
  cases h with
  | shaking p phase meets sends early wrote writing got shook =>
    cases hstep with
    | hears n want k chunk phase' len ne le comes =>
      cases phase.symm.trans phase'
      obtain ⟨hhears, hearly⟩ := hears n chunk rfl len (by rw [phase']; rfl) comes meets.1
      have hmeets := meets.2 chunk ne (len ▸ le) hhears
      exact .of hr rfl hmeets sends hearly wrote writing got shook
    | sends n bytes k phase' =>
      cases phase.symm.trans phase'
      exact .of hr rfl meets.2 meets.1 early wrote writing got rfl
    | failsRead err n want k phase' => exact .failed err rfl sends shook
    | failsWrite err n bytes k phase' =>
      cases phase.symm.trans phase'
      have hpart : e.sent ++ bytes.take n <+: e.sent ++ bytes :=
        (prefix_append_right_inj _).2 (List.take_prefix _ _)
      exact .failed err rfl (hr.part hpart meets.1) rfl
    | writes buf st info phase' | polls sizes st info phase'
    | reads capacity n st info inner phase' => cases phase.symm.trans phase'
  | failed err phase => exact absurd phase (hstep.not_failed err)
  | established st info phase enc dec o h first handover writes reads shook =>
    obtain ⟨st', hphase, hw, hread, hshook⟩ := hstep.established phase writes reads
    exact .established st' info hphase enc dec o h first handover hw hread (hshook.trans shook)

end Plays

end BitRev
