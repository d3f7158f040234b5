import BitRev.Framework.Bytes
import BitRev.Framework.Prog

/-!
# Programs over a byte stream

A `Dialog ε α` reads from and writes to a byte stream and ends with an `α` or an error. A read asks
for at most `want` bytes and is answered by the next bytes that have arrived, as many as the stream
cares to give (none if it has ended).

`Dialog.Meets line p Q i o`: a program that has read `i` and written `o` so far goes on, whatever
the sizes of its reads, such that what it reads and writes stays on the `line`, and its result
satisfies `Q` with what it has read and written then. An error is no result.

* `meets_pure`, `meets_bind`, `meets_read`, `meets_write`: the rules by which a program is proved.
* `Follows t h`: what was read is a part of `t`, or `t` and more. `meets_readExact`,
  `meets_readExactAfter`: exact reads of a stream that starts with `t` give the next bytes of `t`.
-/

namespace BitRev

open List

inductive StreamCall where
  | read (want : Nat)
  | write (bytes : Bytes)

def StreamCall.Ans : StreamCall → Type
  | .read _ => Bytes
  | .write _ => Unit

def Dialog (ε α : Type) : Type := Prog StreamCall StreamCall.Ans (Except ε α)

namespace Dialog

variable {ε α β : Type}

def bind (p : Dialog ε α) (f : α → Dialog ε β) : Dialog ε β :=
  Prog.bind p fun
    | .ok a => f a
    | .error e => Prog.ret (.error e)

def throw (e : ε) : Dialog ε α := Prog.ret (.error e)

instance : Monad (Dialog ε) where
  pure a := Prog.ret (.ok a)
  bind := bind

def read (want : Nat) : Dialog ε Bytes := Prog.call (.read want) fun chunk => Prog.ret (.ok chunk)

def write (bytes : Bytes) : Dialog ε Unit := Prog.call (.write bytes) fun _ => Prog.ret (.ok ())

/-- Reads until `need` more bytes are there. Each read gives at least one of them, so there are at
most `fuel` reads if `need ≤ fuel`. -/
def readMore (eof : ε) : (fuel need : Nat) → Bytes → Dialog ε Bytes
  | 0, _, got => pure got
  | fuel + 1, need, got =>
    if need = 0 then pure got
    else do
      let chunk ← read need
      if chunk = [] then throw eof
      else readMore eof fuel (need - chunk.length) (got ++ chunk)

def readExact (eof : ε) (n : Nat) : Dialog ε Bytes := readMore eof n n []

/-- `read_exact` on a stream after bytes that were read before; also returns which of them are
left. -/
def readExactAfter (eof : ε) (pre : Bytes) (n : Nat) : Dialog ε (Bytes × Bytes) :=
  if n ≤ pre.length then pure (pre.take n, pre.drop n)
  else do
    let rest ← readExact eof (n - pre.length)
    pure (pre ++ rest, [])

/-! ## What a program may read and write -/

/-- What a program may have read and written, and what it has written when it waits for more. -/
structure Line where
  hears : Bytes → Prop
  sends : Bytes → Prop
  waits : Bytes → Prop

/-- As `Dialog.Meets`, with a condition on errors as well. -/
def MeetsAny (line : Line) (Q : Except ε α → Bytes → Bytes → Prop) :
    Prog StreamCall StreamCall.Ans (Except ε α) → Bytes → Bytes → Prop
  | .ret a, i, o => Q a i o
  | .call (.read want) k, i, o => line.waits o ∧ ∀ chunk : Bytes, chunk ≠ [] →
      chunk.length ≤ want → line.hears (i ++ chunk) → MeetsAny line Q (k chunk) (i ++ chunk) o
  | .call (.write bytes) k, i, o =>
    line.sends (o ++ bytes) ∧ MeetsAny line Q (k ()) i (o ++ bytes)

def Meets (line : Line) (p : Dialog ε α) (Q : α → Bytes → Bytes → Prop) (i o : Bytes) : Prop :=
  MeetsAny line (fun r i o => ∀ a, r = .ok a → Q a i o) p i o

section

variable {line : Line} {i o : Bytes} {Q : α → Bytes → Bytes → Prop}

lemma meets_pure {a : α} (h : Q a i o) : Meets line (pure a : Dialog ε α) Q i o := by
  rintro b hb
  cases hb
  exact h

lemma meets_throw {e : ε} : Meets line (throw e : Dialog ε α) Q i o := by
  rintro b hb
  cases hb

lemma meets_bind {p : Dialog ε α} {f : α → Dialog ε β} {Q : β → Bytes → Bytes → Prop}
    (h : Meets line p (fun a i o => Meets line (f a) Q i o) i o) : Meets line (p >>= f) Q i o := by
  show MeetsAny line _ (bind p f) i o
  unfold bind
  unfold Meets at h
  induction (p : Prog StreamCall StreamCall.Ans (Except ε α)) generalizing i o with
  | ret r =>
    cases r with
    | ok a => exact h a rfl
    | error e => exact fun b hb => by cases hb
  | call e k ih =>
    cases e with
    | read want => exact ⟨h.1, fun chunk hne hlen hin => ih chunk (h.2 chunk hne hlen hin)⟩
    | write bytes => exact ⟨h.1, ih () h.2⟩

lemma meets_mono {p : Dialog ε α} {Q' : α → Bytes → Bytes → Prop}
    (hQ : ∀ a i o, Q a i o → Q' a i o) (h : Meets line p Q i o) : Meets line p Q' i o := by
  unfold Meets at h ⊢
  induction (p : Prog StreamCall StreamCall.Ans (Except ε α)) generalizing i o with
  | ret r => exact fun a ha => hQ a i o (h a ha)
  | call e k ih =>
    cases e with
    | read want => exact ⟨h.1, fun chunk hne hlen hin => ih chunk (h.2 chunk hne hlen hin)⟩
    | write bytes => exact ⟨h.1, ih () h.2⟩

lemma meets_read {want : Nat} {Q : Bytes → Bytes → Bytes → Prop} (hw : line.waits o)
    (h : ∀ chunk : Bytes, chunk ≠ [] → chunk.length ≤ want → line.hears (i ++ chunk) →
      Q chunk (i ++ chunk) o) : Meets line (read want : Dialog ε Bytes) Q i o := by
  refine ⟨hw, fun chunk hne hlen hin b hb => ?_⟩
  cases hb
  exact h chunk hne hlen hin

lemma meets_write {bytes : Bytes} {Q : Unit → Bytes → Bytes → Prop} (hs : line.sends (o ++ bytes))
    (h : Q () i (o ++ bytes)) : Meets line (write bytes : Dialog ε Unit) Q i o := by
  refine ⟨hs, fun b hb => ?_⟩
  cases hb
  exact h

lemma meets_ite {c : Prop} [Decidable c] {p q : Dialog ε α} (hp : c → Meets line p Q i o)
    (hq : ¬c → Meets line q Q i o) : Meets line (if c then p else q) Q i o := by
  split
  · exact hp ‹_›
  · exact hq ‹_›

end

/-! ## Reading a stream that starts in a known way -/

/-- What was read is a part of `t`, or `t` and more. -/
def Follows (t h : Bytes) : Prop := h <+: t ∨ t <+: h

lemma Follows.take {t h : Bytes} (hf : Follows t h) (hle : h.length ≤ t.length) :
    h = t.take h.length := by
  rcases hf with hp | hp
  · exact prefix_iff_eq_take.1 hp
  · rw [hp.eq_of_length_le hle]
    simp

lemma Follows.drop {t h : Bytes} (hf : Follows t h) (hle : t.length ≤ h.length) :
    h = t ++ h.drop t.length := by
  rcases hf with hp | hp
  · rw [hp.eq_of_length_le hle]
    simp
  · obtain ⟨r, rfl⟩ := hp
    simp

lemma Follows.append_left {t h r : Bytes} (hf : Follows t (h ++ r)) : Follows t h := by
  rcases hf with hp | hp
  · exact .inl ((prefix_append h r).trans hp)
  · exact prefix_or_prefix_of_prefix (prefix_append h r) hp

lemma Follows.of_append {t r h : Bytes} (hf : Follows (t ++ r) h) : Follows t h := by
  rcases hf with hp | hp
  · exact prefix_or_prefix_of_prefix hp (prefix_append t r)
  · exact .inr ((prefix_append t r).trans hp)

lemma Follows.cancel {a t h : Bytes} (hf : Follows (a ++ t) (a ++ h)) : Follows t h :=
  hf.imp (prefix_append_right_inj a).1 (prefix_append_right_inj a).1

section

variable {line : Line} {t : Bytes} (hline : ∀ h, line.hears h → Follows t h) {eof : ε} {o : Bytes}
  (hw : line.waits o)

include hline hw

variable {Q : Bytes → Bytes → Bytes → Prop}

lemma meets_readMore {p : Nat} {got : Bytes} (fuel need : Nat) (hfuel : need ≤ fuel)
    (hneed : p + need ≤ t.length) (h : Q (got ++ (t.drop p).take need) (t.take (p + need)) o) :
    Meets line (readMore eof fuel need got) Q (t.take p) o := by
  induction fuel generalizing need p got with
  | zero =>
    obtain rfl : need = 0 := by omega
    exact meets_pure (by simpa using h)
  | succ fuel ih =>
    unfold readMore
    refine meets_ite (fun h0 => ?_) fun h0 => ?_
    · subst h0
      exact meets_pure (by simpa using h)
    refine meets_bind (meets_read hw fun chunk hne hlen hhears => ?_)
    refine meets_ite (fun hnil => absurd hnil hne) fun _ => ?_
    have hpos : 0 < chunk.length := length_pos_iff.2 hne
    have hp : (t.take p).length = p := by rw [length_take]; omega
    have htake : t.take p ++ chunk = t.take (p + chunk.length) := by
      have := (hline _ hhears).take (by rw [length_append]; omega)
      rwa [length_append, hp] at this
    have hchunk : chunk = (t.drop p).take chunk.length := by
      have := congrArg (drop p) htake
      rw [drop_left' hp, drop_take] at this
      rw [this]
      simp
    rw [htake]
    refine ih (need - chunk.length) (by omega) (by omega) ?_
    rw [add_assoc, Nat.add_sub_cancel' hlen, append_assoc]
    convert h using 2
    rw [show (t.drop p).take need =
      (t.drop p).take (chunk.length + (need - chunk.length)) by rw [Nat.add_sub_cancel' hlen],
      take_add, ← hchunk, drop_drop]

lemma meets_readExact {p n : Nat} (hn : p + n ≤ t.length)
    (h : Q ((t.drop p).take n) (t.take (p + n)) o) : Meets line (readExact eof n) Q (t.take p) o :=
  meets_readMore hline hw n n le_rfl hn h

end

/-- A stream that starts with `t` was read, and all but the last bytes `pre` were used: the first
`p` bytes of `t`. -/
structure At (t : Bytes) (p : Nat) (pre i : Bytes) : Prop where
  le : p ≤ t.length
  eq : i = t.take p ++ pre
  follows : Follows t i

lemma At.length_take {t pre i : Bytes} {p : Nat} (h : At t p pre i) : (t.take p).length = p := by
  rw [List.length_take, Nat.min_eq_left h.le]

lemma At.use {t pre i : Bytes} {p k : Nat} (h : At t p pre i) (hk : k ≤ pre.length)
    (hp : p + k ≤ t.length) : pre.take k = (t.drop p).take k ∧ At t (p + k) (pre.drop k) i := by
  have hsplit : i = (t.take p ++ pre.take k) ++ pre.drop k := by
    rw [append_assoc, take_append_drop]
    exact h.eq
  have hlen : (t.take p ++ pre.take k).length = p + k := by
    rw [List.length_append, h.length_take, List.length_take, Nat.min_eq_left hk]
  have hfollows : Follows t (t.take p ++ pre.take k) := (hsplit ▸ h.follows).append_left
  have htake : t.take p ++ pre.take k = t.take (p + k) :=
    (hfollows.take (by omega)).trans (by rw [hlen])
  refine ⟨?_, hp, hsplit.trans (by rw [htake]), h.follows⟩
  rw [take_add] at htake
  exact append_cancel_left htake

lemma At.all {t pre i : Bytes} {p : Nat} (h : At t p pre i) (hp : p + pre.length ≤ t.length) :
    pre = (t.drop p).take pre.length ∧ i = t.take (p + pre.length) := by
  obtain ⟨hpre, hat⟩ := h.use le_rfl hp
  exact ⟨by simpa using hpre, by simpa using hat.eq⟩

lemma meets_readExactAfter {line : Line} {t : Bytes} (hline : ∀ h, line.hears h → Follows t h)
    {eof : ε} {o : Bytes} (hw : line.waits o) {Q : Bytes × Bytes → Bytes → Bytes → Prop}
    {p n : Nat} {pre i : Bytes} (hat : At t p pre i) (hn : p + n ≤ t.length)
    (h : ∀ pre' i', At t (p + n) pre' i' → Q ((t.drop p).take n, pre') i' o) :
    Meets line (readExactAfter eof pre n) Q i o := by
  refine meets_ite (fun hle => meets_pure ?_) fun hlt => ?_
  · obtain ⟨htake, hat'⟩ := hat.use hle hn
    rw [htake]
    exact h _ _ hat'
  · obtain ⟨hpre, hi⟩ := hat.all (by omega)
    have hsum : p + pre.length + (n - pre.length) = p + n := by omega
    rw [hi]
    refine meets_bind (meets_readExact hline hw (by omega) (meets_pure ?_))
    rw [hsum]
    have hall : pre ++ (t.drop (p + pre.length)).take (n - pre.length) = (t.drop p).take n := by
      have hadd : (t.drop p).take (pre.length + (n - pre.length)) =
          pre ++ (t.drop (p + pre.length)).take (n - pre.length) := by
        rw [take_add, ← hpre, drop_drop]
      rw [← hadd, Nat.add_sub_cancel' (by omega)]
    rw [hall]
    exact h _ _ ⟨hn, by simp, .inl (List.take_prefix _ _)⟩

end Dialog

end BitRev
