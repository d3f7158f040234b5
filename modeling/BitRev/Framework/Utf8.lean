import BitRev.Framework.Bytes

/-!
# Lossy UTF-8 decoding

`String::from_utf8_lossy` on bytes: each maximal ill-formed piece becomes U+FFFD, everything else
stays.
-/

namespace BitRev.Utf8

/-- U+FFFD in UTF-8. -/
def replacement : Bytes := [0xEF, 0xBF, 0xBD]

/-- The ranges of the continuation bytes after a lead byte; `none` for what is no lead byte. -/
def continuation (b : UInt8) : Option (List (UInt8 × UInt8)) :=
  let any := (0x80, 0xBF)
  if b < 0x80 then some []
  else if b < 0xC2 then none
  else if b < 0xE0 then some [any]
  else if b = 0xE0 then some [(0xA0, 0xBF), any]
  else if b = 0xED then some [(0x80, 0x9F), any]
  else if b < 0xF0 then some [any, any]
  else if b = 0xF0 then some [(0x90, 0xBF), any, any]
  else if b < 0xF4 then some [any, any, any]
  else if b = 0xF4 then some [(0x80, 0x8F), any, any]
  else none

/-- How many of `bs` continue the ranges. -/
def matching : List (UInt8 × UInt8) → Bytes → Nat
  | (lo, hi) :: rs, b :: bs => if lo ≤ b ∧ b ≤ hi then matching rs bs + 1 else 0
  | _, _ => 0

/-- `String::from_utf8_lossy`, on at most `fuel` characters. -/
def lossyFuel : Nat → Bytes → Bytes
  | 0, _ => []
  | _ + 1, [] => []
  | n + 1, b :: bs =>
    match continuation b with
    | none => replacement ++ lossyFuel n bs
    | some rs =>
      let k := matching rs bs
      if k = rs.length then b :: bs.take k ++ lossyFuel n (bs.drop k)
      else replacement ++ lossyFuel n (bs.drop k)

/-- Every character takes a byte, so the number of bytes is fuel enough. -/
def fromUtf8Lossy (bs : Bytes) : Bytes := lossyFuel bs.length bs

example : fromUtf8Lossy [0x61, 0xE2, 0x82, 0x62, 0xFF, 0xC3, 0xA9] =
    [0x61, 0xEF, 0xBF, 0xBD, 0x62, 0xEF, 0xBF, 0xBD, 0xC3, 0xA9] := by
  decide

end BitRev.Utf8
