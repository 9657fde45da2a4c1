import LuaEmbed.Number.Binary64
import LuaEmbed.Text.Ascii

/-!
Reading numbers from text: decimal and hexadecimal, integer and float. An integer numeral that
does not fit reads as a float if decimal and wraps around if hexadecimal.
-/
namespace LuaEmbed

/-- A number of either kind. -/
inductive Number where
  | int (i : Int64)
  | float (x : Binary64)
  deriving DecidableEq, Inhabited

namespace Numeral

open Ascii

/-- The value of a run of digits in a base. -/
def value (base : Nat) (ds : List UInt8) : Nat :=
  ds.foldl (fun acc d => acc * base + digitValue d) 0

def skipSpace (bs : List UInt8) : List UInt8 := bs.dropWhile isSpace

/-- An optional sign: whether it was a minus, and what follows. -/
def sign : List UInt8 → Bool × List UInt8
  | 45 :: r => (true, r)
  | 43 :: r => (false, r)
  | r => (false, r)

/-- What follows a hexadecimal mark. -/
def hexMark? : List UInt8 → Option (List UInt8)
  | 48 :: x :: r => if x = 120 || x = 88 then some r else none
  | _ => none

/-- A run of digits and what follows it. -/
def span (p : UInt8 → Bool) (bs : List UInt8) : List UInt8 × List UInt8 :=
  (bs.takeWhile p, bs.dropWhile p)

def atEnd (bs : List UInt8) : Bool := (skipSpace bs).isEmpty

/-- An integer numeral, spaces around it allowed. -/
def integer? (bs : List UInt8) : Option Int64 :=
  let (neg, r) := sign (skipSpace bs)
  match hexMark? r with
  | some r =>
    let (ds, rest) := span isHexDigit r
    if ds.isEmpty || !atEnd rest then none
    else
      let v := Int64.ofNat (value 16 ds)
      some (if neg then -v else v)
  | none =>
    let (ds, rest) := span isDigit r
    if ds.isEmpty || !atEnd rest then none
    else
      let v := value 10 ds
      if v < 2 ^ 63 || (neg && v = 2 ^ 63) then
        some (if neg then -Int64.ofNat v else Int64.ofNat v)
      else none

/-- An exponent after its letter, if digits follow; otherwise the letter is not part of it. -/
def exponent (letter : UInt8) (bs : List UInt8) : Int × List UInt8 :=
  match bs with
  | c :: r =>
    if toLower c = letter then
      let (neg, r) := sign r
      let (ds, rest) := span isDigit r
      if ds.isEmpty then (0, bs)
      else (if neg then -(value 10 ds : Int) else value 10 ds, rest)
    else (0, bs)
  | [] => (0, bs)

/-- Digits with an optional point: all digits, how many stand after the point, and the rest. -/
def mantissa (p : UInt8 → Bool) (bs : List UInt8) : List UInt8 × Nat × List UInt8 :=
  let (whole, r) := span p bs
  match r with
  | 46 :: r =>
    let (frac, rest) := span p r
    if whole.isEmpty && frac.isEmpty then ([], 0, bs) else (whole ++ frac, frac.length, rest)
  | _ => (whole, 0, r)

/-- The double nearest to `n * base ^ e`; exponents far outside the range are settled by size. -/
def scale (neg : Bool) (n base : Nat) (digits : Nat) (e : Int) : Binary64 :=
  if n = 0 then Binary64.zero neg
  else if 5000 < e + digits then Binary64.infinity neg
  else if e + digits < -5000 then Binary64.zero neg
  else Binary64.ofQuotient neg (n * base ^ e.toNat) (base ^ (-e).toNat)

/-- A float numeral, spaces around it allowed. -/
def float? (bs : List UInt8) : Option Binary64 :=
  let (neg, r) := sign (skipSpace bs)
  match hexMark? r with
  | some r =>
    let (ds, places, rest) := mantissa isHexDigit r
    if ds.isEmpty then none
    else
      let (e, rest) := exponent 112 rest
      if atEnd rest then some (scale neg (value 16 ds) 2 (4 * ds.length) (e - 4 * places)) else none
  | none =>
    let (ds, places, rest) := mantissa isDigit r
    if ds.isEmpty then none
    else
      let (e, rest) := exponent 101 rest
      if atEnd rest then some (scale neg (value 10 ds) 10 ds.length (e - places)) else none

/-- The number a text denotes. -/
def parse? (bs : List UInt8) : Option Number :=
  match integer? bs with
  | some i => some (.int i)
  | none => (float? bs).map .float

end Numeral
end LuaEmbed
