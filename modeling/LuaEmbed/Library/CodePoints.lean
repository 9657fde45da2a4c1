import LuaEmbed.Engine.Action
import LuaEmbed.Library.Strings

/-!
Functions on the code points of a text in UTF-8, which here may take up to six bytes.
-/
namespace LuaEmbed.Library.CodePoints

open Engine

def isTail (b : UInt8) : Bool := b &&& 0xC0 = 0x80

/-- The bytes of a code point. -/
def encode (c : Nat) : List UInt8 :=
  let tail (k : Nat) : UInt8 := UInt8.ofNat (0x80 + c / 64 ^ k % 64)
  let tails (n : Nat) : List UInt8 := (List.range n).reverse.map tail
  if c < 0x80 then [UInt8.ofNat c]
  else if c < 0x800 then UInt8.ofNat (0xC0 + c / 64) :: tails 1
  else if c < 0x10000 then UInt8.ofNat (0xE0 + c / 64 ^ 2) :: tails 2
  else if c < 0x200000 then UInt8.ofNat (0xF0 + c / 64 ^ 3) :: tails 3
  else if c < 0x4000000 then UInt8.ofNat (0xF8 + c / 64 ^ 4) :: tails 4
  else UInt8.ofNat (0xFC + c / 64 ^ 5) :: tails 5

/-- The smallest code point that needs so many bytes after the first. -/
def least : Nat → Nat
  | 0 => 0
  | 1 => 0x80
  | 2 => 0x800
  | 3 => 0x10000
  | 4 => 0x200000
  | _ => 0x4000000

/-- A code point at a position: its value and length. -/
def decode (s : Bytes) (strict : Bool) (i : Nat) : Option (Nat × Nat) :=
  match s.data[i]? with
  | none => none
  | some b =>
    let b := b.toNat
    if b < 0x80 then some (b, 1)
    else
      let lead : Option (Nat × Nat) :=
        if b < 0xC0 then none
        else if b < 0xE0 then some (1, b % 32)
        else if b < 0xF0 then some (2, b % 16)
        else if b < 0xF8 then some (3, b % 8)
        else if b < 0xFC then some (4, b % 4)
        else if b < 0xFE then some (5, b % 2)
        else none
      match lead with
      | none => none
      | some (n, high) =>
        let tail := ((s.extract (i + 1) (i + 1 + n)).data.toList)
        if tail.length < n || !tail.all isTail then none
        else
          let c := tail.foldl (fun acc t => acc * 64 + t.toNat % 64) high
          if c < least n then none
          else if strict && (0x10FFFF < c || (0xD800 ≤ c && c ≤ 0xDFFF)) then none
          else some (c, n + 1)

/-- A place counted from the end if it is negative. -/
def place (i : Int) (size : Nat) : Int :=
  if 0 ≤ i then i else if (size : Int) < -i then 0 else size + i + 1

variable (args : Args)

def char : Native (List Val) := do
  let rec go : Nat → Nat → Native (List UInt8)
    | _, 0 => return []
    | i, n + 1 => do
      let c ← args.integer i
      if c.toInt < 0 || 0x7FFFFFFF < c.toInt then Native.badArgument i "value out of range"
      return encode c.toInt.toNat ++ (← go (i + 1) n)
  return [.str (Bytes.ofList (← go 1 (args : List Val).length))]

def countFrom (s : Bytes) (strict : Bool) (last : Int) : Nat → Nat → Nat → Nat ⊕ Nat
  | 0, _, n => .inl n
  | fuel + 1, i, n =>
    if last < i then .inl n
    else
      match decode s strict i with
      | none => .inr (i + 1)
      | some (_, k) => countFrom s strict last fuel (i + k) (n + 1)

def len : Native (List Val) := do
  let s ← args.text 1
  let i := place (← args.integerOr 2 1) s.size
  let j := place (← args.integerOr 3 (-1)) s.size
  let lax := (args.at_ 4).truthy
  if !(1 ≤ i && i - 1 ≤ s.size) then Native.badArgument 2 "initial position out of bounds"
  if !(j - 1 < s.size) then Native.badArgument 3 "final position out of bounds"
  match countFrom s (!lax) (j - 1) (s.size + 1) (i - 1).toNat 0 with
  | .inl n => return [.ofNat n]
  | .inr at_ => return [.nil, .ofNat at_]

def pointsFrom (s : Bytes) (strict : Bool) (last : Nat) : Nat → Nat → Native (List Val)
  | 0, _ => return []
  | fuel + 1, i => do
    if last ≤ i then return []
    match decode s strict i with
    | none => Native.fail "invalid UTF-8 code"
    | some (c, k) => return .ofNat c :: (← pointsFrom s strict last fuel (i + k))

def codepoint : Native (List Val) := do
  let s ← args.text 1
  let i := place (← args.integerOr 2 1) s.size
  let j := place (← args.integerOr 3 i) s.size
  let lax := (args.at_ 4).truthy
  if !(1 ≤ i) then Native.badArgument 2 "out of bounds"
  if !(j ≤ s.size) then Native.badArgument 3 "out of bounds"
  if j < i then return []
  pointsFrom s (!lax) j.toNat (s.size + 1) (i - 1).toNat

/-- Whether a text continues a code point at a position. -/
def tailAt (s : Bytes) (i : Int) : Bool := 0 ≤ i && ((s.data[i.toNat]?).map isTail).getD false

/-- Steps over continuation bytes in one direction. -/
def skip (s : Bytes) (step : Int) : Nat → Int → Int
  | 0, i => i
  | fuel + 1, i => if tailAt s i then skip s step fuel (i + step) else i

def backward (s : Bytes) : Nat → Int → Int → Int × Int
  | 0, n, i => (n, i)
  | fuel + 1, n, i =>
    if n < 0 && 0 < i then
      let start := skip s (-1) s.size (i - 1)
      backward s fuel (n + 1) (max start 0)
    else (n, i)

def forward (s : Bytes) : Nat → Int → Int → Int × Int
  | 0, n, i => (n, i)
  | fuel + 1, n, i =>
    if 0 < n && i < s.size then forward s fuel (n - 1) (skip s 1 s.size (i + 1)) else (n, i)

def offset : Native (List Val) := do
  let s ← args.text 1
  let n := (← args.integer 2).toInt
  let start : Int := if 0 < n then 1 else s.size + 1
  let i := place (← args.integerOr 3 start) s.size
  if !(1 ≤ i && i - 1 ≤ s.size) then Native.badArgument 3 "position out of bounds"
  let i := i - 1
  if n = 0 then return [.ofInt ((max 0 (skip s (-1) s.size i)) + 1)]
  if tailAt s i then Native.fail "initial position is a continuation byte"
  let (left, i) :=
    if n < 0 then backward s (s.size + 1) n i else forward s (s.size + 1) (n - 1) i
  if left = 0 then return [.ofInt (i + 1)] else return [.nil]

def codesStep (strict : Bool) : Native (List Val) := do
  let s ← args.text 1
  let i := ((args.at_ 2).toInteger?.map Int64.toInt).getD 0
  let i := if i < 0 then (s.size : Int) else skip s 1 (s.size + 1) (if i = 0 then 0 else i)
  if (s.size : Int) ≤ i then return []
  match decode s strict i.toNat with
  | none => Native.fail "invalid UTF-8 code"
  | some (c, k) =>
    if tailAt s (i + k) then Native.fail "invalid UTF-8 code"
    return [.ofInt (i + 1), .ofNat c]

def codes : Native (List Val) := do
  let s ← args.text 1
  if tailAt s 0 then Native.badArgument 1 "invalid UTF-8 code"
  let step : Builtin := if (args.at_ 2).truthy then .codesStepLax else .codesStep
  return [.builtin step, .str s, .int 0]

end LuaEmbed.Library.CodePoints
