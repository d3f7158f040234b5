import BitRev.Framework.Ranges
import BitRev.Metainfo.Magnet

/-!
# Blocklists

`ip_filter.rs`: `IpFilter::parse` reads a list of single addresses, CIDR blocks and ranges with
eMule access levels, line by line, and merges the ranges of each family; `contains` searches the
ranges of the family of an address. Text is a list of characters. Reading an IPv6 address, which
the standard library does, is a parameter. The path of the file, its reloading and the statistics
are left out.

`parse_exact`: a parsed list contains exactly the addresses that its lines list, in ranges with gaps.
-/

namespace BitRev

/-! ## Text -/

namespace Text

/-- `char::is_whitespace`. -/
def isWhitespace (c : Char) : Bool :=
  let n := c.toNat
  (9 ≤ n && n ≤ 13) || n = 0x20 || n = 0x85 || n = 0xa0 || n = 0x1680 ||
    (0x2000 ≤ n && n ≤ 0x200a) || n = 0x2028 || n = 0x2029 || n = 0x202f || n = 0x205f ||
    n = 0x3000

def trimEndMatches (p : Char → Bool) (s : List Char) : List Char :=
  (s.reverse.dropWhile p).reverse

variable (s : List Char)

def trim : List Char := trimEndMatches isWhitespace (s.dropWhile isWhitespace)

/-- `lines`, with the line read so far backwards: a line ends with a line feed, which is dropped
together with one carriage return before it. -/
def linesFrom (line : List Char) : List Char → List (List Char)
  | [] => if line = [] then [] else [line.reverse]
  | c :: cs =>
    if c = '\n' then
      (if line.head? = some '\r' then line.tail else line).reverse :: linesFrom [] cs
    else linesFrom (c :: line) cs

def lines : List (List Char) := linesFrom [] s

/-- Around the first occurrence of `pat`. -/
def splitOnce (pat : List Char) : List Char → Option (List Char × List Char)
  | [] => none
  | c :: cs =>
    if pat.isPrefixOf (c :: cs) then some ([], (c :: cs).drop pat.length)
    else (splitOnce pat cs).map fun x => (c :: x.1, x.2)

def splitWhitespace : List (List Char) :=
  (s.splitOnP isWhitespace).filter (· ≠ [])

def isAsciiDigit (c : Char) : Bool := '0' ≤ c && c ≤ '9'

def parseDigits (max : Nat) (s : List Char) : Option Nat :=
  if s = [] ∨ s.all isAsciiDigit = false then none
  else
    let n := s.foldl (fun n c => 10 * n + (c.toNat - '0'.toNat)) 0
    if n ≤ max then some n else none

/-- `u32::from_str`, which accepts a plus sign. -/
def parseU32 : Option Nat :=
  parseDigits (2 ^ 32 - 1) (if s.head? = some '+' then s.tail else s)

end Text

open Text BitVec

structure ParseError where
  line : Nat
  message : String

inductive ParsedRange where
  | v4 (start last : BitVec 32)
  | v6 (start last : BitVec 128)

structure IpFilter where
  v4 : List (Nat × Nat) := []
  v6 : List (Nat × Nat) := []
  deriving DecidableEq

namespace ParsedRange

def single : IpAddr → ParsedRange
  | .v4 ip => .v4 ip ip
  | .v6 ip => .v6 ip ip

def fromIps : IpAddr → IpAddr → Except String (Option ParsedRange)
  | .v4 a, .v4 b =>
    if b < a then .error "end address is lower than start" else .ok (some (.v4 a b))
  | .v6 a, .v6 b =>
    if b < a then .error "end address is lower than start" else .ok (some (.v6 a b))
  | _, _ => .error "start and end address families differ"

/-- The range lists the address. -/
def Covers : ParsedRange → IpAddr → Prop
  | .v4 a b, .v4 ip => a ≤ ip ∧ ip ≤ b
  | .v6 a b, .v6 ip => a ≤ ip ∧ ip ≤ b
  | _, _ => False

def Valid : ParsedRange → Prop
  | .v4 a b => a ≤ b
  | .v6 a b => a ≤ b

def v4? : ParsedRange → Option (Nat × Nat)
  | .v4 a b => some (a.toNat, b.toNat)
  | .v6 _ _ => none

def v6? : ParsedRange → Option (Nat × Nat)
  | .v4 _ _ => none
  | .v6 a b => some (a.toNat, b.toNat)

end ParsedRange

/-- The addresses are of one family and have the same first `n` bits. -/
def IpAddr.SamePrefix (n : Nat) : IpAddr → IpAddr → Prop
  | .v4 a, .v4 b => b >>> (32 - n) = a >>> (32 - n)
  | .v6 a, .v6 b => b >>> (128 - n) = a >>> (128 - n)
  | _, _ => False

/-- The address is of the family of `a` and `b`, and not outside of them. -/
def IpAddr.Between : IpAddr → IpAddr → IpAddr → Prop
  | .v4 a, .v4 b, .v4 x => a ≤ x ∧ x ≤ b
  | .v6 a, .v6 b, .v6 x => a ≤ x ∧ x ≤ b
  | _, _, _ => False

namespace IpFilter

/-- Ranges in order that neither overlap nor touch. -/
def Apart (rs : List (Nat × Nat)) : Prop :=
  (∀ r ∈ rs, r.1 ≤ r.2) ∧ rs.Pairwise fun r r' => r.2 + 1 < r'.1

/-! ## Parsing -/

/-- An access level above this is not blocked. -/
def emuleBlockMax : Nat := 127

def bad {α : Type} (text : String) (about : List Char) : Except String α :=
  .error (text ++ String.ofList about)

section

variable (readV6 : List Char → Option (BitVec 128))

def parseIp (text : List Char) : Except String IpAddr :=
  let text := trim text
  if ':' ∈ text then
    match readV6 text with
    | some ip => .ok (.v6 ip)
    | none => bad "bad address " text
  else
    match (text.splitOn '.').map (parseDigits 255) with
    | [some a, some b, some c, some d] =>
      .ok (.v4 (BitVec.ofNat 32 (((a * 256 + b) * 256 + c) * 256 + d)))
    | _ => bad "bad address " text

section

variable (line : List Char)

/-- A `#` starts a comment, except in the description of an eMule line. -/
def stripInlineComment : List Char :=
  match Text.splitOnce ['#'] line with
  | some (head, _) => if 2 ≤ head.count ',' then trim line else trim head
  | none => trim line

def splitHyphen : Option (List Char × List Char) :=
  match Text.splitOnce [' ', '-', ' '] line with
  | some (left, right) => some (trim left, trim right)
  | none =>
    (Text.splitOnce ['-'] line).bind fun (left, right) =>
      if left = [] ∨ right = [] then none else some (trim left, trim right)

def prefixMask (w bits : Nat) : BitVec w :=
  if bits = 0 then 0 else BitVec.allOnes w <<< (w - bits)

/-- The block of the addresses that begin as `ip` does. -/
def block {w : Nat} (ip : BitVec w) (bits : Nat) : BitVec w × BitVec w :=
  let mask := prefixMask w bits
  (ip &&& mask, (ip &&& mask) ||| ~~~mask)

def parseCidr (addr bits : List Char) : Except String (Option ParsedRange) := do
  let ip ← parseIp readV6 addr
  match parseU32 bits with
  | none => bad "bad cidr prefix " bits
  | some n =>
    match ip with
    | .v4 ip =>
      if 32 < n then .error ("ipv4 prefix " ++ toString n ++ " is out of range")
      else .ok (some (.v4 (block ip n).1 (block ip n).2))
    | .v6 ip =>
      if 128 < n then .error ("ipv6 prefix " ++ toString n ++ " is out of range")
      else .ok (some (.v6 (block ip n).1 (block ip n).2))

/-- The end of a range and its access level, if it has one. -/
def boundsTail (rest : List Char) : Except String (List Char × Option (List Char)) :=
  match Text.splitOnce [','] rest with
  | some (last, after) => .ok (trim last, some (trim ((after.splitOn ',').headD [])))
  | none =>
    match splitWhitespace rest with
    | _ :: extra :: _ =>
      if extra.head? = some '#' then .ok ((splitWhitespace rest).headD [], none)
      else bad "trailing junk after range: " extra
    | words => .ok (words.headD [], none)

def parseBounds (startTok rest : List Char) : Except String (Option ParsedRange) := do
  let start ← parseIp readV6 startTok
  let (endTok, level) ← boundsTail rest
  let level := level.filter (· ≠ [])
  match level.map fun tok => (tok, parseU32 tok) with
  | some (tok, none) => bad "bad access level " tok
  | some (_, some n) =>
    if emuleBlockMax < n then .ok none
    else
      let last ← parseIp readV6 endTok
      ParsedRange.fromIps start last
  | none =>
    let last ← parseIp readV6 endTok
    ParsedRange.fromIps start last

def parseLine : Except String (Option ParsedRange) :=
  let head := stripInlineComment line
  if head = [] then .ok none
  else
    match Text.splitOnce ['/'] head with
    | some (addr, bits) =>
      if bits.all Text.isAsciiDigit then parseCidr readV6 (trim addr) (trim bits)
      else bad "bad prefix in " head
    | none =>
      match splitHyphen head with
      | some (start, last) => parseBounds readV6 start last
      | none =>
        match parseIp readV6 head with
        | .ok ip => .ok (some (.single ip))
        | .error _ => bad "unrecognized filter line: " head

/-- The line is empty or a comment. -/
def skipped : Bool :=
  line = [] || line.head? = some '#' || ['/', '/'].isPrefixOf line

end

/-- The ranges of the lines from number `n` on. -/
def parseLines (n : Nat) : List (List Char) → Except ParseError (List ParsedRange)
  | [] => .ok []
  | raw :: rest =>
    let line := trim (trimEndMatches (· = '\r') (trim raw))
    if skipped line then parseLines (n + 1) rest
    else
      match parseLine readV6 line with
      | .error message => .error ⟨n, message⟩
      | .ok range => (parseLines (n + 1) rest).map (range.toList ++ ·)

def listed (text : List Char) : Except ParseError (List ParsedRange) :=
  parseLines readV6 1 (lines (if text.head? = some (Char.ofNat 0xfeff) then text.tail else text))

def mergeRanges (w : Nat) (ranges : List (Nat × Nat)) : List (Nat × Nat) :=
  Ranges.merge (fun n => min (n + 1) (2 ^ w - 1)) ranges

def ofRanges (ranges : List ParsedRange) : IpFilter where
  v4 := mergeRanges 32 (ranges.filterMap (·.v4?))
  v6 := mergeRanges 128 (ranges.filterMap (·.v6?))

def parse (text : List Char) : Except ParseError IpFilter := (listed readV6 text).map ofRanges

end

def contains (f : IpFilter) : IpAddr → Bool
  | .v4 ip => Ranges.contains f.v4 ip.toNat
  | .v6 ip => Ranges.contains f.v6 ip.toNat

/-! ## What a list means -/

section

variable {readV6 : List Char → Option (BitVec 128)} {w : Nat} {r : ParsedRange}
  {rs : List ParsedRange}

lemma block_valid (ip : BitVec w) (bits : Nat) : (block ip bits).1 ≤ (block ip bits).2 := by
  rw [le_def]
  simp only [block, toNat_or]
  exact Nat.left_le_or

lemma prefixMask_eq (w n : Nat) : prefixMask w n = BitVec.allOnes w <<< (w - n) := by
  unfold prefixMask
  split_ifs with h
  · simp [h]
  · rfl

lemma mem_block (ip x : BitVec w) (n : Nat) :
    (block ip n).1 ≤ x ∧ x ≤ (block ip n).2 ↔ x >>> (w - n) = ip >>> (w - n) := by
  have hpow : 2 ^ (w - n) ≤ 2 ^ w := Nat.pow_le_pow_right two_pos (Nat.sub_le w n)
  have hpos := Nat.two_pow_pos (w - n)
  have hlow : (ip &&& prefixMask w n).toNat = 2 ^ (w - n) * (ip.toNat / 2 ^ (w - n)) := by
    have hle := Nat.mul_div_le ip.toNat (2 ^ (w - n))
    rw [prefixMask_eq, ← shiftLeft_ushiftRight, toNat_shiftLeft,
      toNat_ushiftRight, Nat.shiftLeft_eq, Nat.shiftRight_eq_div_pow, mul_comm,
      Nat.mod_eq_of_lt (hle.trans_lt ip.isLt)]
  have hmask : (~~~prefixMask w n).toNat = 2 ^ (w - n) - 1 := by
    have hlast : ~~~prefixMask w n = BitVec.ofNat w (2 ^ (w - n) - 1) := by
      refine eq_of_getLsbD_eq fun i hi => ?_
      rw [prefixMask_eq, getLsbD_ofNat, Nat.testBit_two_pow_sub_one]
      simp [hi]
    rw [hlast, toNat_ofNat, Nat.mod_eq_of_lt (by omega)]
  have hhigh : (block ip n).2.toNat =
      2 ^ (w - n) * (ip.toNat / 2 ^ (w - n)) + (2 ^ (w - n) - 1) := by
    simp only [block, toNat_or, hlow, hmask]
    exact (Nat.two_pow_add_eq_or_of_lt (by omega) _).symm
  rw [le_def, le_def, hhigh, ← toNat_inj, toNat_ushiftRight,
    toNat_ushiftRight, Nat.shiftRight_eq_div_pow, Nat.shiftRight_eq_div_pow,
    Nat.div_eq_iff hpos, mul_comm (_ / _), Nat.add_sub_assoc hpos]
  exact and_congr_left' (by rw [← hlow]; rfl)

lemma fromIps_range {a b : IpAddr} (h : ParsedRange.fromIps a b = .ok (some r)) :
    r.Valid ∧ ∀ x, r.Covers x ↔ a.Between b x := by
  unfold ParsedRange.fromIps at h
  split at h
  case h_3 => cases h
  all_goals
    split at h <;> cases h
    rename_i hge
    exact ⟨BitVec.not_lt.1 hge, fun x => by cases x <;> rfl⟩

lemma single_range (ip x : IpAddr) : (ParsedRange.single ip).Covers x ↔ x = ip := by
  cases ip <;> cases x <;> simp [ParsedRange.single, ParsedRange.Covers, le_def, ← toNat_inj] <;> omega

lemma parseCidr_block {addr bits : List Char} (h : parseCidr readV6 addr bits = .ok (some r)) :
    r.Valid ∧ ∃ ip n, parseIp readV6 addr = .ok ip ∧ parseU32 bits = some n ∧
      ∀ x, r.Covers x ↔ ip.SamePrefix n x := by
  unfold parseCidr at h
  cases hip : parseIp readV6 addr with
  | error msg => rw [hip] at h; cases h
  | ok ip =>
    rw [hip] at h
    dsimp only [bind, Except.bind] at h
    split at h
    · cases h
    · rename_i n hn
      split at h <;> split at h <;> cases h <;> refine ⟨block_valid .., _, n, rfl, hn, ?_⟩
      all_goals
        intro x
        cases x with
        | v4 x | v6 x => first | exact mem_block .. | exact Iff.rfl

lemma parseBounds_range {startTok rest : List Char}
    (h : parseBounds readV6 startTok rest = .ok (some r)) :
    r.Valid ∧ ∃ a b tail, parseIp readV6 startTok = .ok a ∧ boundsTail rest = .ok tail ∧
      parseIp readV6 tail.1 = .ok b ∧ ∀ x, r.Covers x ↔ a.Between b x := by
  have hlast : ∀ start endTok, (do
      let last ← parseIp readV6 endTok
      ParsedRange.fromIps start last) = .ok (some r) →
      r.Valid ∧ ∃ b, parseIp readV6 endTok = .ok b ∧ ∀ x, r.Covers x ↔ start.Between b x := by
    intro start endTok hr
    cases hl : parseIp readV6 endTok with
    | error msg => rw [hl] at hr; cases hr
    | ok last =>
      rw [hl] at hr
      exact ⟨(fromIps_range hr).1, last, rfl, (fromIps_range hr).2⟩
  unfold parseBounds at h
  cases hs : parseIp readV6 startTok with
  | error msg => rw [hs] at h; cases h
  | ok start =>
    cases ht : boundsTail rest with
    | error msg => rw [hs, ht] at h; cases h
    | ok tail =>
      rw [hs, ht] at h
      dsimp only [bind, Except.bind] at h
      obtain ⟨hvalid, b, hb, hcovers⟩ :
          r.Valid ∧ ∃ b, parseIp readV6 tail.1 = .ok b ∧ ∀ x, r.Covers x ↔ start.Between b x := by
        split at h
        · cases h
        · split at h
          · cases h
          · exact hlast start _ h
        · exact hlast start _ h
      exact ⟨hvalid, start, b, tail, rfl, rfl, hb, hcovers⟩

lemma parseLine_valid {line : List Char} (h : parseLine readV6 line = .ok (some r)) : r.Valid := by
  unfold parseLine at h
  dsimp only at h
  split at h
  · cases h
  split at h
  · split at h
    · exact (parseCidr_block h).1
    · cases h
  split at h
  · exact (parseBounds_range h).1
  split at h <;> cases h
  rename_i ip _
  cases ip <;> exact BitVec.le_refl _

lemma listed_valid {text : List Char} (h : listed readV6 text = .ok rs) : ∀ r ∈ rs, r.Valid := by
  have hlines : ∀ (ls : List (List Char)) (n : Nat) (rs : List ParsedRange),
      parseLines readV6 n ls = .ok rs → ∀ r ∈ rs, r.Valid := by
    intro ls
    induction ls with
    | nil =>
      intro n rs h
      cases h
      simp
    | cons raw rest ih =>
      intro n rs h
      unfold parseLines at h
      dsimp only at h
      split at h
      · exact ih _ _ h
      split at h
      · cases h
      · rename_i range hrange
        cases hrest : parseLines readV6 (n + 1) rest with
        | error err => rw [hrest] at h; cases h
        | ok rs' =>
          rw [hrest] at h
          cases h
          refine List.forall_mem_append.2 ⟨fun r hr => ?_, ih _ _ hrest⟩
          rw [Option.mem_toList] at hr
          exact parseLine_valid (hr ▸ hrange)
  exact hlines _ _ rs h

/-- The search among merged ranges of addresses of `w` bits. -/
lemma contains_mergeRanges {rs : List (Nat × Nat)}
    (hv : ∀ r ∈ rs, r.1 ≤ r.2 ∧ r.2 < 2 ^ w) (x : BitVec w) :
    Ranges.contains (mergeRanges w rs) x.toNat ↔ Ranges.Covers rs x.toNat := by
  refine Ranges.contains_merge (fun r hr => ?_) (fun r hr => (hv r hr).1) fun a ha => ?_
  · have := (hv r hr).2
    exact le_min (Nat.le_succ _) (by omega)
  · exact (min_le_left _ _).trans ha

/-- The merged ranges have gaps, also at the largest address. -/
lemma mergeRanges_apart {rs : List (Nat × Nat)} (hv : ∀ r ∈ rs, r.1 ≤ r.2 ∧ r.2 < 2 ^ w) :
    Apart (mergeRanges w rs) := by
  have hsep : Ranges.Separated (mergeRanges w rs) ∧
      (mergeRanges w rs).Pairwise fun r r' => min (r.2 + 1) (2 ^ w - 1) < r'.1 := by
    refine Ranges.merge_separated (fun r hr => ?_) fun r hr => (hv r hr).1
    have := (hv r hr).2
    exact le_min (Nat.le_succ _) (by omega)
  obtain ⟨⟨hvalid, -⟩, hgaps⟩ := hsep
  refine ⟨hvalid, hgaps.imp_of_mem fun {r r'} _ hr' hgap => ?_⟩
  -- a range that was read covers the start of the merged one
  have hcovers : Ranges.Covers (mergeRanges w rs) r'.1 := ⟨r', hr', le_rfl, hvalid r' hr'⟩
  obtain ⟨r₀, hr₀, -, hle⟩ :=
    (Ranges.merge_covers (fun a ha => (min_le_left _ _).trans ha) rs).1 hcovers
  have := (hv r₀ hr₀).2
  omega

lemma v4_valid (h : ∀ r ∈ rs, r.Valid) :
    ∀ p ∈ rs.filterMap (·.v4?), p.1 ≤ p.2 ∧ p.2 < 2 ^ 32 := by
  intro p hp
  obtain ⟨r, hr, hp⟩ := List.mem_filterMap.1 hp
  cases r with
  | v4 a b =>
    cases hp
    exact ⟨h _ hr, b.isLt⟩
  | v6 a b => cases hp

lemma v6_valid (h : ∀ r ∈ rs, r.Valid) :
    ∀ p ∈ rs.filterMap (·.v6?), p.1 ≤ p.2 ∧ p.2 < 2 ^ 128 := by
  intro p hp
  obtain ⟨r, hr, hp⟩ := List.mem_filterMap.1 hp
  cases r with
  | v4 a b => cases hp
  | v6 a b =>
    cases hp
    exact ⟨h _ hr, b.isLt⟩

lemma contains_family {f : ParsedRange → Option (Nat × Nat)}
    {ip : IpAddr} {x : BitVec w} (hv : ∀ p ∈ rs.filterMap f, p.1 ≤ p.2 ∧ p.2 < 2 ^ w)
    (hc : ∀ r : ParsedRange, r.Covers ip ↔ ∃ p ∈ f r, p.1 ≤ x.toNat ∧ x.toNat ≤ p.2) :
    Ranges.contains (mergeRanges w (rs.filterMap f)) x.toNat ↔ ∃ r ∈ rs, r.Covers ip := by
  rw [contains_mergeRanges hv]
  simp only [Ranges.Covers, List.mem_filterMap, hc]
  constructor
  · rintro ⟨p, ⟨r, hr, hp⟩, hx⟩
    exact ⟨r, hr, p, hp, hx⟩
  · rintro ⟨r, hr, p, hp, hx⟩
    exact ⟨p, ⟨r, hr, hp⟩, hx⟩

lemma contains_iff {text : List Char} (h : listed readV6 text = .ok rs)
    (ip : IpAddr) : (ofRanges rs).contains ip ↔ ∃ r ∈ rs, r.Covers ip := by
  have hvalid := listed_valid h
  cases ip with
  | v4 ip =>
    refine contains_family (v4_valid hvalid) fun r => ?_
    cases r <;> simp [ParsedRange.Covers, ParsedRange.v4?, le_def]
  | v6 ip =>
    refine contains_family (v6_valid hvalid) fun r => ?_
    cases r <;> simp [ParsedRange.Covers, ParsedRange.v6?, le_def]

end

/-- A parsed list contains exactly the addresses of the ranges of its lines, and the ranges of each
family are in order and neither overlap nor touch. The range of a CIDR block has the addresses with
the same leading bits, that of a line with a hyphen those between its two addresses, and that of a
single address has only this one. -/
theorem parse_exact (readV6 : List Char → Option (BitVec 128)) (text : List Char) (f : IpFilter)
    (h : parse readV6 text = .ok f) :
    (∃ rs, listed readV6 text = .ok rs ∧
      ∀ ip, f.contains ip ↔ ∃ r ∈ rs, r.Covers ip) ∧
    (Apart f.v4 ∧ Apart f.v6) ∧
    (∀ addr bits r, parseCidr readV6 addr bits = .ok (some r) →
      ∃ ip n, parseIp readV6 addr = .ok ip ∧ parseU32 bits = some n ∧
        ∀ x, r.Covers x ↔ ip.SamePrefix n x) ∧
    (∀ start rest r, parseBounds readV6 start rest = .ok (some r) →
      ∃ a b tail, parseIp readV6 start = .ok a ∧ boundsTail rest = .ok tail ∧
        parseIp readV6 tail.1 = .ok b ∧ ∀ x, r.Covers x ↔ a.Between b x) ∧
    ∀ ip x, (ParsedRange.single ip).Covers x ↔ x = ip := by
  unfold parse at h
  cases hl : listed readV6 text with
  | error err => rw [hl] at h; cases h
  | ok rs =>
    rw [hl] at h
    cases h
    have hvalid := listed_valid hl
    refine ⟨⟨rs, rfl, contains_iff hl⟩, ⟨?_, ?_⟩, fun addr bits r hr => (parseCidr_block hr).2,
      fun start rest r hr => (parseBounds_range hr).2, single_range⟩
    · exact mergeRanges_apart (v4_valid hvalid)
    · exact mergeRanges_apart (v6_valid hvalid)

/-- Blocks and a range that touch, and one with a level that is permitted. -/
def touching : List Char :=
  "10.0.0.9/30\n10.0.0.2/31\n10.0.0.4-10.0.0.7\n10.0.0.30 - 10.0.0.40 , 200 , ok".toList

theorem parse_exact_touching : parse (fun _ => none) touching =
      .ok { v4 := [(0x0a000002, 0x0a00000b)] } ∧ Apart [(0x0a000002, 0x0a00000b)] :=
  have h : parse (fun _ => none) touching = .ok { v4 := [(0x0a000002, 0x0a00000b)] } := rfl
  ⟨h, (parse_exact _ _ _ h).2.1.1⟩

end IpFilter

end BitRev
