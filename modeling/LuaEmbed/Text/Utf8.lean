/-!
Byte strings and their reading as UTF-8. Malformed bytes are cut into pieces, one per character
or per broken part, and each broken part reads as one replacement character.
-/
namespace LuaEmbed.Utf8

/-- A byte that continues a sequence. -/
def isTail (b : UInt8) : Bool := 0x80 ≤ b && b ≤ 0xBF

/-- The bits a continuation byte carries. -/
def tailBits (b : UInt8) : Nat := b.toNat % 64

/-- What the second byte of a three-byte sequence may be. -/
def isSecondOfThree (a b : UInt8) : Bool :=
  if a = 0xE0 then 0xA0 ≤ b && b ≤ 0xBF
  else if a = 0xED then 0x80 ≤ b && b ≤ 0x9F
  else isTail b

/-- What the second byte of a four-byte sequence may be. -/
def isSecondOfFour (a b : UInt8) : Bool :=
  if a = 0xF0 then 0x90 ≤ b && b ≤ 0xBF
  else if a = 0xF4 then 0x80 ≤ b && b ≤ 0x8F
  else isTail b

/-- The cut of a byte list: a character for each well-formed sequence, `none` for each longest
beginning of one that is broken off, or for a byte that begins nothing. -/
def pieces : List UInt8 → List (Option Char)
  | [] => []
  | a :: r =>
    if a < 0x80 then some (Char.ofNat a.toNat) :: pieces r
    else if 0xC2 ≤ a && a ≤ 0xDF then
      match r with
      | [] => [none]
      | b :: r₁ =>
        if isTail b then some (Char.ofNat (a.toNat % 32 * 64 + tailBits b)) :: pieces r₁
        else none :: pieces (b :: r₁)
    else if 0xE0 ≤ a && a ≤ 0xEF then
      match r with
      | [] => [none]
      | [b] => if isSecondOfThree a b then [none] else none :: pieces [b]
      | b :: c :: r₂ =>
        if isSecondOfThree a b then
          if isTail c then
            some (Char.ofNat (a.toNat % 16 * 4096 + tailBits b * 64 + tailBits c)) :: pieces r₂
          else none :: pieces (c :: r₂)
        else none :: pieces (b :: c :: r₂)
    else if 0xF0 ≤ a && a ≤ 0xF4 then
      match r with
      | [] => [none]
      | [b] => if isSecondOfFour a b then [none] else none :: pieces [b]
      | [b, c] =>
        if isSecondOfFour a b then
          if isTail c then [none] else none :: pieces [c]
        else none :: pieces [b, c]
      | b :: c :: d :: r₃ =>
        if isSecondOfFour a b then
          if isTail c then
            if isTail d then
              some (Char.ofNat (a.toNat % 8 * 262144 + tailBits b * 4096 + tailBits c * 64
                + tailBits d)) :: pieces r₃
            else none :: pieces (d :: r₃)
          else none :: pieces (c :: d :: r₃)
        else none :: pieces (b :: c :: d :: r₃)
    else none :: pieces r

/-- The characters of a byte list, each malformed part read as the replacement character. -/
def decodeLossy (bs : List UInt8) : List Char := (pieces bs).map (·.getD '\uFFFD')

end LuaEmbed.Utf8

namespace LuaEmbed

/-- Text as the interpreter holds it: any bytes at all. -/
abbrev Bytes := ByteArray

instance (priority := 1100) : DecidableEq Bytes := ByteArray.instDecidableEq

namespace Bytes

/-- The bytes of a text literal. -/
def ofString (s : String) : Bytes := s.toUTF8

instance : Coe String Bytes := ⟨ofString⟩

/-- Joins byte strings. -/
def concat (parts : List Bytes) : Bytes := parts.foldl (· ++ ·) ByteArray.empty

def ofList (bs : List UInt8) : Bytes := ⟨bs.toArray⟩

/-- One byte repeated. -/
def replicate (n : Nat) (b : UInt8) : Bytes := ⟨Array.replicate n b⟩

/-- The text, if the bytes are well-formed UTF-8. -/
def toString? (b : Bytes) : Option String := String.fromUTF8? b

/-- The text, malformed parts replaced. -/
def toStringLossy (b : Bytes) : String :=
  (toString? b).getD (String.ofList (Utf8.decodeLossy b.data.toList))

def hexDigit (n : Nat) : Char := "0123456789abcdef".toList.getD n '0'

/-- Two lower-case hexadecimal digits a byte. -/
def toHex (b : Bytes) : String :=
  String.ofList (b.data.toList.flatMap fun x => [hexDigit (x.toNat / 16), hexDigit (x.toNat % 16)])

/-- Byte order; a proper beginning comes first. -/
def order (a b : Bytes) : Ordering := compare a.data b.data

end Bytes
end LuaEmbed
