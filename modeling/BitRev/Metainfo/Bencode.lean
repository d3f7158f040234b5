import BitRev.Framework.Bytes

/-!
# Scanning bencode

The hand-written scanners of `file.rs`: `checkBencodeDepth` bounds the nesting before the decoder
runs, and `rawInfoDict` cuts the exact bytes of the `info` value out of a metainfo. A loop or a
recursion of the source carries a fuel, which `checkBencodeDepth`, `infoDictRange` and
`skipBencode` start at a bound on its length.
-/

namespace BitRev.Bencode

def maxBencodeDepth : Nat := 32

/-- `str::parse::<usize>`: an optional `+`, then digits, below `2^64`. -/
def parseUsize (s : Bytes) : Option Nat :=
  let ds := if s.head? = some (chr '+') then s.tail else s
  if ds ≠ [] ∧ ds.all isAsciiDigit ∧ digitsToNat ds < 2 ^ 64 then some (digitsToNat ds) else none

/-- The loop of `check_bencode_depth` on the bytes from `i` on; every turn consumes one or more. -/
def scanDepth : Nat → Bytes → Nat → Except String Unit
  | 0, _, _ => .ok ()
  | _ + 1, [], _ => .ok ()
  | n + 1, b :: bs, depth =>
    if b = chr 'd' ∨ b = chr 'l' then
      if depth + 1 > maxBencodeDepth then .error "bencode nesting exceeds 32"
      else scanDepth n bs (depth + 1)
    else if b = chr 'e' then scanDepth n bs (depth - 1)
    else if b = chr 'i' then scanDepth n ((bs.dropWhile (· ≠ chr 'e')).drop 1) depth
    else if isAsciiDigit b then
      let digits := (b :: bs).takeWhile isAsciiDigit
      match (b :: bs).dropWhile isAsciiDigit with
      | [] => .ok ()
      | c :: rest =>
        if c = chr ':' then scanDepth n (rest.drop ((parseUsize digits).getD 0)) depth
        else scanDepth n (c :: rest) depth
    else scanDepth n bs depth

def checkBencodeDepth (data : Bytes) : Except String Unit := scanDepth data.length data 0

/-- The byte string at `i` and the position after it. -/
def parseBencodeByteString (data : Bytes) (i : Nat) : Except String (Bytes × Nat) :=
  match (data.drop i).findIdx? (· = chr ':') with
  | none => .error "truncated bencode string"
  | some p =>
    match parseUsize ((data.drop i).take p) with
    | none => .error "invalid bencode string length"
    | some len =>
      let start := i + p + 1
      if start + len ≥ 2 ^ 64 then .error "bencode string length overflow"
      else if start + len > data.length then .error "truncated bencode string"
      else .ok ((data.drop start).take len, start + len)

mutual

/-- The position after the value at `i`. -/
def skipBencode (data : Bytes) : Nat → Nat → Except String Nat
  | 0, _ => .error "recursion limit"
  | n + 1, i =>
    match data[i]? with
    | none => .error "truncated bencode"
    | some b =>
      if b = chr 'i' then
        match (data.drop (i + 1)).findIdx? (· = chr 'e') with
        | none => .error "truncated bencode integer"
        | some p => .ok (i + 1 + p + 1)
      else if b = chr 'l' ∨ b = chr 'd' then skipItems data n (i + 1)
      else if isAsciiDigit b then (parseBencodeByteString data i).map (·.2)
      else .error "invalid bencode"

/-- The loop of `skip_bencode` over the items of a list or dict, from `j` on. -/
def skipItems (data : Bytes) : Nat → Nat → Except String Nat
  | 0, _ => .error "recursion limit"
  | n + 1, j =>
    match data[j]? with
    | none => .error "truncated bencode list or dict"
    | some b =>
      if b = chr 'e' then .ok (j + 1)
      else
        match skipBencode data n j with
        | .ok j' => skipItems data n j'
        | .error e => .error e

end

/-- A bound on the nested calls of a scan: a call and a turn of its loop consume a byte. -/
def skipFuel (data : Bytes) : Nat := 2 * data.length + 2

/-- The loop of `info_dict_range` over the keys from `i` on. -/
def findInfo (data : Bytes) : Nat → Nat → Except String (Nat × Nat)
  | 0, _ => .error "missing info dictionary"
  | n + 1, i =>
    match data[i]? with
    | none => .error "missing info dictionary"
    | some b =>
      if b = chr 'e' then .error "missing info dictionary"
      else
        match parseBencodeByteString data i with
        | .error e => .error e
        | .ok (key, afterKey) =>
          match skipBencode data (skipFuel data) afterKey with
          | .error e => .error e
          | .ok valueEnd =>
            if key = ascii "info" then .ok (afterKey, valueEnd) else findInfo data n valueEnd

def infoDictRange (data : Bytes) : Except String (Nat × Nat) :=
  if data.head? ≠ some (chr 'd') then .error "torrent metainfo must be a dict"
  else findInfo data data.length 1

/-- The exact bytes of the `info` value. -/
def rawInfoDict (data : Bytes) : Except String Bytes :=
  (infoDictRange data).map fun (start, stop) => (data.drop start).take (stop - start)

example : rawInfoDict (ascii "d3:agei7e4:infod4:name1:aee") = .ok (ascii "d4:name1:ae") := by
  decide

example : checkBencodeDepth (List.replicate 33 (chr 'l')) =
    .error "bencode nesting exceeds 32" := by
  decide

end BitRev.Bencode
