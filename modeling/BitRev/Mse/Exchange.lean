import BitRev.Mse.Handshake

/-!
# What the two sides of a handshake read and write

Each side of the MSE handshake, against a stream that starts with what the other side sends: whatever
the sizes of its reads, it writes its own messages, and if it succeeds it has read all of the other
side's (`initiateInner_meets`, `respondInner_meets`). What it has read beyond them is left to the
stream as it came.
-/

namespace BitRev

open StreamCipher List Mse

/-- The marker does not occur before the end of the padding and the marker. -/
def FirstAfter (pad marker : Bytes) : Prop :=
  ∀ k < pad.length, ((pad ++ marker).drop k).take marker.length ≠ marker

/-! ## Finding a marker -/

lemma findSlice_eq_none {hay needle : Bytes}
    (h : ∀ pos, pos + needle.length ≤ hay.length → (hay.drop pos).take needle.length ≠ needle) :
    findSlice hay needle = none := by
  unfold findSlice
  split_ifs with hc
  · rfl
  · rw [find?_eq_none]
    intro pos hpos
    have hlt := mem_range.1 hpos
    simpa using h pos (by omega)

lemma findSlice_eq_some {hay needle : Bytes} {k : Nat} (hne : needle ≠ [])
    (hle : k + needle.length ≤ hay.length) (hk : (hay.drop k).take needle.length = needle)
    (hfirst : ∀ pos < k, (hay.drop pos).take needle.length ≠ needle) :
    findSlice hay needle = some k := by
  unfold findSlice
  rw [if_neg (by simp [hne]; omega), find?_range_eq_some]
  refine ⟨by simpa using hk, by simp; omega, fun j hj => by simpa using hfirst j hj⟩

/-- No part of the padding and the marker has the marker, but for its end. -/
lemma FirstAfter.findSlice_none {pad marker : Bytes} (h : FirstAfter pad marker)
    (hne : marker ≠ []) {c d : Nat} (hc : c < pad.length + marker.length) :
    findSlice (((pad ++ marker).take c).drop d) marker = none := by
  have hpos : 0 < marker.length := length_pos_iff.2 hne
  refine findSlice_eq_none fun pos hle => ?_
  rw [length_drop, length_take, length_append] at hle
  have hmin : min marker.length (c - (d + pos)) = marker.length := by omega
  rw [drop_drop, drop_take, take_take, hmin]
  exact h (d + pos) (by omega)

/-- The marker is found at the end of the padding. -/
lemma FirstAfter.findSlice_some {pad marker : Bytes} (h : FirstAfter pad marker)
    (hne : marker ≠ []) {d : Nat} (hd : d ≤ pad.length) (leftover : Bytes) :
    findSlice ((pad ++ marker ++ leftover).drop d) marker = some (pad.length - d) := by
  have hlm : (pad ++ marker).length = pad.length + marker.length := length_append
  have hdrop : (pad ++ marker ++ leftover).drop d = (pad ++ marker).drop d ++ leftover :=
    drop_append_of_le_length (by omega)
  refine findSlice_eq_some hne ?_ ?_ fun pos hlt => ?_
  · rw [length_drop, length_append]
    omega
  · rw [drop_drop, Nat.add_sub_cancel' hd, append_assoc, drop_left' rfl, take_left' rfl]
  · rw [hdrop, drop_append_of_le_length (by rw [length_drop]; omega), drop_drop,
      take_append_of_le_length (by rw [length_drop]; omega)]
    exact h (d + pos) (by omega)

section

variable {line : Dialog.Line} {t : Bytes} (hline : ∀ h, line.hears h → Dialog.Follows t h)
  {o : Bytes} (hw : line.waits o)

include hline hw

open Dialog

section

variable {Q : Bytes → Bytes → Bytes → Prop} {p max : Nat} {pad marker rest : Bytes}
  (hp : p ≤ t.length) (ht : t.drop p = pad ++ marker ++ rest) (hne : marker ≠ [])
  (hfirst : FirstAfter pad marker) (hmax : pad.length + marker.length ≤ max)
  (h : ∀ pre i, At t (p + (pad ++ marker).length) pre i → Q pre i o)

include hp ht hne hfirst hmax h

/-- The loop of `read_until`, when all but the first `d` of the `c` bytes it has read are kept. -/
lemma meets_syncFrom (fuel c d : Nat) (hc : c < pad.length + marker.length) (hd : d ≤ c)
    (hdp : d ≤ pad.length) (hfuel : max ≤ c + fuel) :
    Meets line (syncFrom marker max fuel c (((pad ++ marker).take c).drop d)) Q (t.take (p + c)) o := by
  induction fuel generalizing c d with
  | zero => omega
  | succ fuel ih =>
    unfold syncFrom
    refine meets_ite (fun hstop => by omega) fun _ => ?_
    refine meets_bind (meets_read hw fun chunk hchunk hlen hhears => ?_)
    refine meets_ite (fun hnil => absurd hnil hchunk) fun _ => ?_
    have hlm : (pad ++ marker).length = pad.length + marker.length := length_append
    have hpos : 0 < marker.length := length_pos_iff.2 hne
    have hcpos : 0 < chunk.length := length_pos_iff.2 hchunk
    have hsplit : t = t.take p ++ (pad ++ marker ++ rest) := by rw [← ht, take_append_drop]
    have hlp : (t.take p).length = p := by rw [length_take]; omega
    have htake : ∀ n ≤ pad.length + marker.length,
        t.take (p + n) = t.take p ++ (pad ++ marker).take n := fun n hn => by
      rw [take_add, ht, take_append_of_le_length (by omega)]
    have hfollows : Follows (pad ++ marker) ((pad ++ marker).take c ++ chunk) := by
      have hall := hline _ hhears
      rw [htake c (by omega), append_assoc, hsplit, take_left' hlp] at hall
      exact hall.cancel.of_append
    have hlc : ((pad ++ marker).take c).length = c := by rw [length_take]; omega
    have hbuf : ((pad ++ marker).take c).drop d ++ chunk =
        ((pad ++ marker).take c ++ chunk).drop d := by
      rw [drop_append_of_le_length (by omega)]
    dsimp only
    rw [hbuf, htake c (by omega), append_assoc]
    rcases lt_or_ge (c + chunk.length) (pad.length + marker.length) with hlt | hge
    · -- the marker is not there yet
      have heq : (pad ++ marker).take c ++ chunk = (pad ++ marker).take (c + chunk.length) := by
        have := hfollows.take (by rw [length_append]; omega)
        rwa [length_append, hlc] at this
      have hlc' : ((pad ++ marker).take (c + chunk.length)).length = c + chunk.length := by
        rw [length_take]; omega
      rw [heq, hfirst.findSlice_none hne hlt, ← htake _ (by omega)]
      dsimp only
      split_ifs with hlong
      · rw [length_drop, hlc'] at hlong
        rw [drop_drop, length_drop, hlc']
        exact ih _ _ (by omega) (by omega) (by omega) (by omega)
      · exact ih _ _ (by omega) (by omega) hdp (by omega)
    · -- the marker is there
      obtain ⟨leftover, hleft⟩ : ∃ leftover, (pad ++ marker).take c ++ chunk =
          pad ++ marker ++ leftover :=
        ⟨_, hfollows.drop (by rw [hlm, length_append, hlc]; exact hge)⟩
      rw [hleft, hfirst.findSlice_some hne hdp]
      refine meets_pure ?_
      have hrest : ((pad ++ marker ++ leftover).drop d).drop (pad.length - d + marker.length) =
          leftover := by
        rw [drop_drop, ← add_assoc, Nat.add_sub_cancel' hdp]
        exact drop_left' hlm
      rw [hrest]
      refine h _ _ ⟨?_, ?_, ?_⟩
      · have hlt := congrArg length ht
        rw [length_drop, length_append] at hlt
        omega
      · rw [hlm, htake _ le_rfl, take_of_length_le (le_of_eq hlm), append_assoc (t.take p)]
      · have hall := hline _ hhears
        rwa [htake c (by omega), append_assoc, hleft] at hall

lemma meets_readUntil : Meets line (readUntil marker max) Q (t.take p) o := by
  have hpos := length_pos_iff.2 hne
  have := meets_syncFrom hline hw hp ht hne hfirst hmax h max 0 0 (by omega) (by omega) (by omega)
    (by omega)
  simpa [readUntil] using this

end

/-! ## Reading what is encrypted -/

variable {hello plain : Bytes} {c₀ : Rc4} (ht : t = hello ++ c₀.crypt plain)

include ht

lemma meets_readDec {Q : Bytes × Bytes × Rc4 → Bytes → Bytes → Prop} {a b c pre i : Bytes}
    (hplain : plain = a ++ b ++ c) {n : Nat} (hn : n = b.length)
    (hat : At t (hello.length + a.length) pre i)
    (h : ∀ pre' i', At t (hello.length + (a ++ b).length) pre' i' →
      Q (b, pre', c₀.skip (a ++ b).length) i' o) :
    Meets line (readDec pre (c₀.skip a.length) n) Q i o := by
  subst hn
  have hbytes : (t.drop (hello.length + a.length)).take b.length =
      (c₀.skip a.length).crypt b := by
    rw [ht, hplain, ← drop_drop, drop_left' rfl, crypt_drop,
      append_assoc, drop_left' rfl, crypt_take, take_left' rfl]
  have hlen : hello.length + a.length + b.length ≤ t.length := by
    rw [ht, hplain]
    simp only [length_append, length_crypt]
    omega
  refine meets_bind (meets_readExactAfter hline hw hat hlen fun pre' i' hat' => meets_pure ?_)
  rw [hbytes]
  have hskip : (c₀.skip a.length).skip b.length = c₀.skip (a ++ b).length := by
    rw [length_append]
    exact (skip_add _ _).symm
  have hcrypt : (c₀.skip a.length).crypt ((c₀.skip a.length).crypt b) = b :=
    crypt_crypt b
  rw [hskip, hcrypt]
  exact h pre' i' (by rwa [length_append, ← add_assoc])

section

variable {Q : Bytes × Rc4 → Bytes → Bytes → Prop}

lemma meets_skipFrom (fuel : Nat) {a b c pre i : Bytes} (hplain : plain = a ++ b ++ c)
    (hfuel : b.length ≤ fuel) (hat : At t (hello.length + a.length) pre i)
    (h : ∀ pre' i', At t (hello.length + (a ++ b).length) pre' i' →
      Q (pre', c₀.skip (a ++ b).length) i' o) :
    Meets line (skipFrom fuel b.length pre (c₀.skip a.length)) Q i o := by
  induction fuel generalizing a b pre i with
  | zero =>
    obtain rfl : b = [] := length_eq_zero_iff.1 (by omega)
    simp only [append_nil] at h
    exact meets_pure (h _ _ hat)
  | succ fuel ih =>
    unfold skipFrom
    refine meets_ite (fun h0 => ?_) fun h0 => ?_
    · obtain rfl : b = [] := length_eq_zero_iff.1 h0
      simp only [append_nil] at h
      exact meets_pure (h _ _ hat)
    have hmin : (b.take 64).length = min b.length 64 := by rw [length_take, min_comm]
    have hb : b = b.take 64 ++ b.drop 64 := (take_append_drop 64 b).symm
    have hrest : b.length - min b.length 64 = (b.drop 64).length := by
      rw [length_drop]
      omega
    have hplain' : plain = a ++ b.take 64 ++ b.drop 64 ++ c := by
      rw [append_assoc a, ← hb]
      exact hplain
    refine meets_bind (meets_readDec hline hw ht (b := b.take 64) (c := b.drop 64 ++ c) ?_
      hmin.symm hat fun pre' i' hat' => ?_)
    · rw [hplain', append_assoc (a ++ _)]
    · rw [hrest]
      refine ih hplain' (by rw [length_drop]; omega) hat' ?_
      rw [append_assoc, ← hb]
      exact h

lemma meets_skipDec {a b c pre i : Bytes} (hplain : plain = a ++ b ++ c)
    (hat : At t (hello.length + a.length) pre i)
    (h : ∀ pre' i', At t (hello.length + (a ++ b).length) pre' i' →
      Q (pre', c₀.skip (a ++ b).length) i' o) :
    Meets line (skipDec pre (c₀.skip a.length) b.length) Q i o :=
  meets_skipFrom hline hw ht _ hplain le_rfl hat h

end

lemma meets_readU32Dec {Q : BitVec 32 × Bytes × Rc4 → Bytes → Bytes → Prop}
    {a c pre i : Bytes} {x : BitVec 32} (hplain : plain = a ++ toBe 4 x.toNat ++ c)
    (hat : At t (hello.length + a.length) pre i)
    (h : ∀ pre' i', At t (hello.length + (a ++ toBe 4 x.toNat).length) pre' i' →
      Q (x, pre', c₀.skip (a ++ toBe 4 x.toNat).length) i' o) :
    Meets line (readU32Dec pre (c₀.skip a.length)) Q i o := by
  refine meets_bind (meets_readDec hline hw ht hplain (length_toBe ..).symm hat
    fun pre' i' hat' => meets_pure ?_)
  have hx : BitVec.ofNat 32 (beToNat (toBe 4 x.toNat)) = x := by
    rw [beToNat_toBe (lt_of_lt_of_le x.isLt (by decide)), BitVec.ofNat_toNat, BitVec.setWidth_eq]
  rw [hx]
  exact h pre' i' hat'

lemma meets_readU16Dec {Q : Nat × Bytes × Rc4 → Bytes → Bytes → Prop} {a c pre i : Bytes}
    {x : Nat} (hx : x ≤ maxIa) (hplain : plain = a ++ toBe 2 x ++ c)
    (hat : At t (hello.length + a.length) pre i)
    (h : ∀ pre' i', At t (hello.length + (a ++ toBe 2 x).length) pre' i' →
      Q (x, pre', c₀.skip (a ++ toBe 2 x).length) i' o) :
    Meets line (readU16Dec pre (c₀.skip a.length)) Q i o := by
  refine meets_bind (meets_readDec hline hw ht hplain (length_toBe ..).symm hat
    fun pre' i' hat' => meets_pure ?_)
  rw [beToNat_toBe (lt_of_le_of_lt hx (by decide))]
  exact h pre' i' hat'

end

/-! ## The messages of both sides -/

/-- What goes into a handshake. -/
structure Meeting where
  sha1 : Bytes → Digest
  keysA : DhKeys
  keysB : DhKeys
  padA : Pad
  padB : Pad
  padC : Pad
  padD : Pad
  skey : Digest
  provide : BitVec 32
  ia : Bytes
  allowPlaintext : Bool
  /-- The torrents of the responder. -/
  known : List Digest
  select : BitVec 32 → Option CryptoMethod

namespace Meeting

variable (m : Meeting)

def initiator : Dialog MseError HandshakeOutcome :=
  initiateInner m.sha1 m.keysA m.padA m.padC m.skey m.provide m.ia m.allowPlaintext

def responder : Dialog MseError HandshakeOutcome :=
  respondInner m.sha1 m.keysB m.padB m.padD (lookupSkey m.sha1 m.known) m.select

def secret : Bytes := m.keysA.sharedSecret m.keysB.publicKey

/-- The cipher of what the initiator sends. -/
def cipherA : Rc4 := .forMse (keyA m.sha1 m.secret m.skey)

/-- The cipher of what the responder sends. -/
def cipherB : Rc4 := .forMse (keyB m.sha1 m.secret m.skey)

def selected : CryptoMethod := (m.select m.provide).getD .rc4

/-- What the initiator sends before what it encrypts. -/
def helloA : Bytes :=
  m.keysA.publicKey ++ m.padA.bytes ++
    (hashReq1 m.sha1 m.secret ++ xor20 (hashReq2 m.sha1 m.skey) (hashReq3 m.sha1 m.secret))

def offered : Bytes := offer m.provide m.padC m.ia

/-- All that the initiator sends. -/
def requests : Bytes := m.helloA ++ m.cipherA.crypt m.offered

/-- What the responder sends before what it encrypts. -/
def helloB : Bytes := m.keysB.publicKey ++ m.padB.bytes

def answered : Bytes := answer m.selected m.padD

/-- All that the responder sends. -/
def replies : Bytes := m.helloB ++ m.cipherB.crypt m.answered

/-- Both sides derive the same secret, the torrent is known to the responder, and neither padding
has the marker that follows it. -/
structure Ok : Prop where
  secret : m.keysB.sharedSecret m.keysA.publicKey = m.secret
  known : m.skey ∈ m.known
  unique : ∀ skey ∈ m.known, hashReq2 m.sha1 skey = hashReq2 m.sha1 m.skey → skey = m.skey
  syncA : FirstAfter m.padA.bytes (hashReq1 m.sha1 m.secret)
  syncB : FirstAfter m.padB.bytes (m.cipherB.crypt vc)

/-- The ciphers that a side has after the handshake. -/
def afterA : Rc4 := m.cipherA.skip m.offered.length
def afterB : Rc4 := m.cipherB.skip m.answered.length

end Meeting

lemma plaintext_and_ne_rc4 (p : BitVec 32) : cryptoPlaintext &&& p ≠ cryptoRc4 := by
  intro hp
  have hboth := congrArg (cryptoRc4 &&& ·) hp
  rw [← BitVec.and_assoc] at hboth
  simp [cryptoPlaintext, cryptoRc4] at hboth

lemma rc4_and_ne_plaintext (p : BitVec 32) : cryptoRc4 &&& p ≠ cryptoPlaintext := by
  intro hp
  have hboth := congrArg (cryptoPlaintext &&& ·) hp
  rw [← BitVec.and_assoc] at hboth
  simp [cryptoPlaintext, cryptoRc4] at hboth

/-- The initiator takes what the responder has selected. -/
lemma methodFromSelect_eq {selected selected' : CryptoMethod} {provide : BitVec 32}
    {allowPlaintext : Bool}
    (h : methodFromSelect selected.asU32 provide allowPlaintext = .ok selected') :
    selected' = selected := by
  unfold methodFromSelect at h
  dsimp only at h
  split at h
  · rename_i hc
    cases h
    cases selected with
    | plaintext => exact absurd hc (plaintext_and_ne_rc4 provide)
    | rc4 => rfl
  split at h
  · rename_i hc
    split at h <;> cases h
    cases selected with
    | plaintext => rfl
    | rc4 => exact absurd hc (rc4_and_ne_plaintext provide)
  · cases h

namespace Meeting

open Dialog

section

variable {m : Meeting} {line : Line}

lemma requests_eq :
    m.requests = m.keysA.publicKey ++ m.padA.bytes ++
      step3 m.sha1 m.secret m.skey m.provide m.padC m.ia := by
  simp [requests, helloA, step3, cipherA, offered]

lemma length_helloB : m.helloB.length = publicKeyLen + m.padB.bytes.length := by
  rw [helloB, length_append, m.keysB.length_publicKey]

lemma replies_drop : m.replies.drop publicKeyLen =
    m.padB.bytes ++ m.cipherB.crypt vc ++ (m.cipherB.skip vcLen).crypt
      (toBe 4 m.selected.asU32.toNat ++ toBe 2 m.padD.bytes.length ++ m.padD.bytes) := by
  have hcrypt : m.cipherB.crypt m.answered = m.cipherB.crypt vc ++ (m.cipherB.skip vcLen).crypt
      (toBe 4 m.selected.asU32.toNat ++ toBe 2 m.padD.bytes.length ++ m.padD.bytes) := by
    rw [answered, answer, append_assoc, append_assoc, ← append_assoc (toBe 4 _)]
    exact crypt_append _ _
  rw [replies, helloB, append_assoc, drop_left' m.keysB.length_publicKey, hcrypt]
  exact (append_assoc _ _ _).symm

/-- What the initiator returns when it has read the answer and more. -/
def Initiated (m : Meeting) (out : HandshakeOutcome) (i o : Bytes) : Prop :=
  ∃ pre, i = m.replies ++ pre ∧ o = m.requests ∧
    out = ⟨finishStream m.selected m.afterA m.afterB pre, m.selected, m.skey⟩

lemma initiateWith_meets (hok : m.Ok) (hline : ∀ h, line.hears h → Follows m.replies h)
    (hsends : ∀ o, o <+: m.requests → line.sends o) (hwaits : ∀ o, line.waits o) :
    Meets line
      (initiateWith m.sha1 m.secret m.padC m.skey m.provide m.ia m.allowPlaintext) m.Initiated
      (m.replies.take publicKeyLen) (m.keysA.publicKey ++ m.padA.bytes) := by
  unfold initiateWith
  refine meets_bind (meets_write (hsends _ (by rw [requests_eq])) ?_)
  rw [← requests_eq, show Rc4.forMse (keyA m.sha1 m.secret m.skey) = m.cipherA from rfl,
    show Rc4.forMse (keyB m.sha1 m.secret m.skey) = m.cipherB from rfl]
  have hvc : m.cipherB.crypt vc ≠ [] := by
    rw [ne_eq, ← length_eq_zero_iff, length_crypt]
    decide
  have hlen : publicKeyLen ≤ m.replies.length := by
    rw [replies, length_append, length_helloB]
    omega
  refine meets_bind (meets_readUntil hline (hwaits _) hlen replies_drop hvc hok.syncB ?_
    fun leftover i hat => ?_)
  · rw [length_crypt]
    exact Nat.add_le_add_right m.padB.length_le _
  have hat : At m.replies (m.helloB.length + vc.length) leftover i := by
    rw [length_helloB, add_assoc]
    simpa using hat
  have hplain : m.answered = vc ++ toBe 4 m.selected.asU32.toNat ++
      (toBe 2 m.padD.bytes.length ++ m.padD.bytes) := by
    simp [answered, answer]
  refine meets_bind (meets_readU32Dec hline (hwaits _) rfl hplain hat fun pre i hat => ?_)
  have hplain : m.answered = vc ++ toBe 4 m.selected.asU32.toNat ++
      toBe 2 m.padD.bytes.length ++ m.padD.bytes := rfl
  refine meets_bind (meets_readU16Dec hline (hwaits _) rfl
    (le_trans m.padD.length_le (by decide)) hplain hat fun pre i hat => ?_)
  refine meets_ite (fun hbig => absurd m.padD.length_le (Nat.not_le_of_lt hbig)) fun _ => ?_
  have hplain : m.answered = vc ++ toBe 4 m.selected.asU32.toNat ++
      toBe 2 m.padD.bytes.length ++ m.padD.bytes ++ [] := (append_nil _).symm
  refine meets_bind (meets_skipDec hline (hwaits _) rfl hplain hat fun pre i hat => ?_)
  have hi : i = m.replies ++ pre := by
    have hall : m.helloB.length + m.answered.length = m.replies.length := by
      rw [replies, length_append, length_crypt]
    have heq : At m.replies (m.helloB.length + m.answered.length) pre i := hat
    rw [heq.eq, hall, take_length]
  dsimp only
  split
  · exact meets_throw
  · rename_i selected hsel
    rw [methodFromSelect_eq hsel]
    exact meets_pure ⟨pre, hi, rfl, rfl⟩

lemma initiator_meets (hok : m.Ok) (hline : ∀ h, line.hears h → Follows m.replies h)
    (hsends : ∀ o, o <+: m.requests → line.sends o) (hwaits : ∀ o, line.waits o) :
    Meets line m.initiator m.Initiated [] [] := by
  unfold initiator initiateInner
  refine meets_ite (fun _ => meets_throw) fun hia => meets_ite (fun _ => meets_throw) fun _ => ?_
  refine meets_bind (meets_write (hsends _ ?_) (meets_bind (meets_write (hsends _ ?_) ?_)))
  · rw [requests_eq, append_assoc, nil_append]
    exact prefix_append _ _
  · rw [requests_eq]
    exact prefix_append _ _
  have hlen : publicKeyLen ≤ m.replies.length := by
    rw [replies, length_append, length_helloB]
    omega
  show Meets line _ _ (m.replies.take 0) _
  refine meets_bind (meets_readExact hline (hwaits _) ?_ ?_)
  · exact le_trans (by decide) hlen
  refine meets_ite (fun _ => meets_throw) fun _ => ?_
  refine meets_bind (meets_readExact hline (hwaits _) (le_trans (by decide) hlen) ?_)
  have hkey : (m.replies.drop 0).take btHandshakeHead.length ++
      (m.replies.drop (0 + btHandshakeHead.length)).take (publicKeyLen - btHandshakeHead.length) =
      m.keysB.publicKey := by
    rw [drop_zero, zero_add, ← take_add, replies, helloB, append_assoc]
    exact take_left' m.keysB.length_publicKey
  rw [hkey]
  exact initiateWith_meets hok hline hsends hwaits

lemma length_helloA : m.helloA.length = publicKeyLen + (m.padA.bytes.length + (20 + 20)) := by
  rw [helloA, length_append, length_append, length_append, m.keysA.length_publicKey,
    length_hashReq1, length_xor20 (length_hashReq2 ..) (length_hashReq3 ..), add_assoc]

lemma requests_drop : m.requests.drop publicKeyLen =
    m.padA.bytes ++ hashReq1 m.sha1 m.secret ++
      (xor20 (hashReq2 m.sha1 m.skey) (hashReq3 m.sha1 m.secret) ++
        m.cipherA.crypt m.offered) := by
  rw [requests, helloA, append_assoc, append_assoc, drop_left' m.keysA.length_publicKey]
  simp only [append_assoc]

lemma Ok.lookup (hok : m.Ok) :
    lookupSkey m.sha1 m.known (hashReq2 m.sha1 m.skey) = some m.skey := by
  unfold lookupSkey
  cases hfind : m.known.find? fun skey => hashReq2 m.sha1 skey = hashReq2 m.sha1 m.skey with
  | none => simpa using find?_eq_none.1 hfind m.skey hok.known
  | some skey =>
    have hsame : hashReq2 m.sha1 skey = hashReq2 m.sha1 m.skey := by
      simpa using find?_some hfind
    rw [hok.unique skey (mem_of_find?_eq_some hfind) hsame]

/-- What the responder returns when it has read the offer and more. -/
def Responded (m : Meeting) (out : HandshakeOutcome) (i o : Bytes) : Prop :=
  m.select m.provide = some m.selected ∧ ∃ pre, i = m.requests ++ pre ∧ o = m.replies ∧
    out = ⟨finishStream m.selected m.afterB m.afterA (m.ia ++ pre), m.selected, m.skey⟩

lemma respondTo_meets {pre : Bytes} (hsends : ∀ o, o <+: m.replies → line.sends o) :
    Meets line (respondTo m.cipherB m.afterA m.padD m.skey m.provide m.ia pre m.select)
      m.Responded (m.requests ++ pre) m.helloB := by
  unfold respondTo
  split
  · exact meets_throw
  · rename_i selected hsel
    obtain rfl : m.selected = selected := by rw [Meeting.selected, hsel, Option.getD_some]
    refine meets_ite (fun _ => meets_throw) fun _ => meets_ite (fun _ => meets_throw) fun _ => ?_
    exact meets_bind (meets_write (hsends _ (prefix_refl _))
      (meets_pure ⟨hsel, pre, rfl, rfl, rfl⟩))

lemma respondWith_meets (hia : m.ia.length ≤ maxIa)
    (hline : ∀ h, line.hears h → Follows m.requests h)
    (hsends : ∀ o, o <+: m.replies → line.sends o) (hw : line.waits m.helloB) {pre i : Bytes}
    (hat : At m.requests m.helloA.length pre i) :
    Meets line (respondWith m.sha1 m.secret m.padD m.skey pre m.select) m.Responded i m.helloB := by
  unfold respondWith
  rw [show Rc4.forMse (keyA m.sha1 m.secret m.skey) = m.cipherA from rfl,
    show Rc4.forMse (keyB m.sha1 m.secret m.skey) = m.cipherB from rfl]
  have hplain : m.offered = [] ++ vc ++ (toBe 4 m.provide.toNat ++ toBe 2 m.padC.bytes.length ++
      m.padC.bytes ++ toBe 2 m.ia.length ++ m.ia) := by
    simp [offered, offer]
  refine meets_bind (meets_readDec hline hw (a := []) rfl hplain rfl hat fun pre i hat => ?_)
  refine meets_ite (fun hne => absurd rfl hne) fun _ => ?_
  simp only [nil_append] at hat ⊢
  have hplain : m.offered = vc ++ toBe 4 m.provide.toNat ++ (toBe 2 m.padC.bytes.length ++
      m.padC.bytes ++ toBe 2 m.ia.length ++ m.ia) := by
    simp [offered, offer]
  refine meets_bind (meets_readU32Dec hline hw rfl hplain hat fun pre i hat => ?_)
  have hplain : m.offered = vc ++ toBe 4 m.provide.toNat ++ toBe 2 m.padC.bytes.length ++
      (m.padC.bytes ++ toBe 2 m.ia.length ++ m.ia) := by
    simp [offered, offer]
  refine meets_bind (meets_readU16Dec hline hw rfl
    (le_trans m.padC.length_le (by decide)) hplain hat fun pre i hat => ?_)
  refine meets_ite (fun hbig => absurd m.padC.length_le (Nat.not_le_of_lt hbig)) fun _ => ?_
  have hplain : m.offered = vc ++ toBe 4 m.provide.toNat ++ toBe 2 m.padC.bytes.length ++
      m.padC.bytes ++ (toBe 2 m.ia.length ++ m.ia) := by
    simp [offered, offer]
  refine meets_bind (meets_skipDec hline hw rfl hplain hat fun pre i hat => ?_)
  refine meets_bind (meets_readU16Dec hline hw rfl hia rfl hat fun pre i hat => ?_)
  refine meets_ite (fun hbig => absurd hia (Nat.not_le_of_lt hbig)) fun _ => ?_
  have hplain : m.offered = vc ++ toBe 4 m.provide.toNat ++ toBe 2 m.padC.bytes.length ++
      m.padC.bytes ++ toBe 2 m.ia.length ++ m.ia ++ [] := (append_nil _).symm
  refine meets_bind (meets_readDec hline hw rfl hplain rfl hat fun pre i hat => ?_)
  have hi : i = m.requests ++ pre := by
    have hall : m.helloA.length + m.offered.length = m.requests.length := by
      rw [requests, length_append, length_crypt]
    have heq : At m.requests (m.helloA.length + m.offered.length) pre i := hat
    rw [heq.eq, hall, take_length]
  rw [hi]
  exact respondTo_meets hsends

lemma responder_meets (hok : m.Ok) (hia : m.ia.length ≤ maxIa)
    (hline : ∀ h, line.hears h → Follows m.requests h)
    (hsends : ∀ o, o <+: m.replies → line.sends o) (hwaits : ∀ o, o <+: m.helloB → line.waits o) :
    Meets line m.responder m.Responded [] [] := by
  unfold responder respondInner
  have hlen : m.requests.length = m.helloA.length + m.offered.length := by
    rw [requests, length_append, length_crypt]
  rw [length_helloA] at hlen
  show Meets line _ _ (m.requests.take 0) _
  refine meets_bind (meets_readExact hline (hwaits _ nil_prefix) (by omega) ?_)
  have hkey : (m.requests.drop 0).take publicKeyLen = m.keysA.publicKey := by
    rw [drop_zero, requests, helloA, append_assoc, append_assoc]
    exact take_left' m.keysA.length_publicKey
  rw [hkey, hok.secret, zero_add]
  have hprefix : m.helloB <+: m.replies := prefix_append _ _
  refine meets_bind (meets_write (hsends _ ((prefix_append _ _).trans hprefix))
    (meets_bind (meets_write (hsends _ hprefix) ?_)))
  have hreq1 := length_hashReq1 m.sha1 m.secret
  have hw : line.waits m.helloB := hwaits _ (prefix_refl _)
  refine meets_bind (meets_readUntil hline hw (by omega) requests_drop ?_ hok.syncA ?_
    fun leftover i hat => ?_)
  · rw [ne_eq, ← length_eq_zero_iff, hreq1]
    decide
  · rw [hreq1]
    exact Nat.add_le_add_right m.padA.length_le _
  rw [length_append, hreq1] at hat
  refine meets_bind (meets_readExactAfter hline hw hat (by omega) fun pre i hat => ?_)
  have hxor : (m.requests.drop (publicKeyLen + (m.padA.bytes.length + 20))).take 20 =
      xor20 (hashReq2 m.sha1 m.skey) (hashReq3 m.sha1 m.secret) := by
    rw [← drop_drop, requests_drop,
      drop_left' (by rw [length_append, hreq1]),
      take_left' (length_xor20 (length_hashReq2 ..) (length_hashReq3 ..))]
  have hlookup : lookupSkey m.sha1 m.known (xor20 (xor20 (hashReq2 m.sha1 m.skey)
      (hashReq3 m.sha1 m.secret)) (hashReq3 m.sha1 m.secret)) = some m.skey := by
    rw [xor20_xor20 ((length_hashReq2 ..).trans (length_hashReq3 ..).symm), hok.lookup]
  rw [hxor]
  dsimp only
  rw [hlookup]
  refine respondWith_meets hia hline hsends hw ?_
  rwa [length_helloA, ← add_assoc m.padA.bytes.length, ← add_assoc publicKeyLen]

end

end Meeting

end BitRev
