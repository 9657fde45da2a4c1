/-!
Doubles by their bits. The bits are kept as they are, NaN payloads and signed zeros included;
a double is taken apart into an exact integer multiple of a power of two, and a quotient of
naturals is rounded to the nearest double.
-/
namespace LuaEmbed

/-- Powers of naturals are computed ones, whatever other powers are in scope. -/
@[default_instance 20000]
instance (priority := 1100) powNat : Pow Nat Nat := instPowNat

/-- A double, identified by its bits. -/
structure Binary64 where
  bits : UInt64
  deriving DecidableEq, Inhabited, Repr

namespace Binary64

/-- What a double stands for: a finite one is `m * 2 ^ q`, negated if `neg`. -/
inductive Parts where
  | nan
  | infinite (neg : Bool)
  | finite (neg : Bool) (m : Nat) (q : Int)

def signBit : Nat := 2 ^ 63

def isNegative (x : Binary64) : Bool := signBit ≤ x.bits.toNat

def exponentField (x : Binary64) : Nat := x.bits.toNat / 2 ^ 52 % 2048

def fractionField (x : Binary64) : Nat := x.bits.toNat % 2 ^ 52

def isNaN (x : Binary64) : Bool := x.exponentField = 2047 && x.fractionField ≠ 0

def parts (x : Binary64) : Parts :=
  if x.exponentField = 2047 then
    if x.fractionField = 0 then .infinite x.isNegative else .nan
  else if x.exponentField = 0 then .finite x.isNegative x.fractionField (-1074)
  else .finite x.isNegative (2 ^ 52 + x.fractionField) (x.exponentField - 1075)

def ofBits (sign : Bool) (exponent fraction : Nat) : Binary64 :=
  ⟨UInt64.ofNat ((if sign then signBit else 0) + exponent * 2 ^ 52 + fraction)⟩

def infinity (neg : Bool) : Binary64 := ofBits neg 2047 0

def zero (neg : Bool) : Binary64 := ofBits neg 0 0

/-- The NaN that an invalid operation produces. -/
def invalid : Binary64 := ofBits true 2047 (2 ^ 51)

/-- The NaN of positive sign. -/
def positiveNaN : Binary64 := ofBits false 2047 (2 ^ 51)

/-- Nearest integer to a quotient, a half going to the even neighbour. -/
def roundDiv (num den : Nat) : Nat :=
  let whole := num / den
  let twice := 2 * (num % den)
  if den < twice || (den = twice && whole % 2 = 1) then whole + 1 else whole

/-- The largest `e` with `2 ^ e * den ≤ num`, for a positive quotient. -/
def log2Quotient (num den : Nat) : Int :=
  let guess : Int := (num.log2 : Int) - den.log2
  if den * 2 ^ guess.toNat ≤ num * 2 ^ (-guess).toNat then guess else guess - 1

/-- The double nearest to `num / den`, ties to even, overflowing to infinity. -/
def ofQuotient (neg : Bool) (num den : Nat) : Binary64 :=
  if num = 0 || den = 0 then zero neg
  else
    let e := max (log2Quotient num den) (-1022)
    let shift := 52 - e
    let m := roundDiv (num * 2 ^ shift.toNat) (den * 2 ^ (-shift).toNat)
    let (m, e) := if m = 2 ^ 53 then (2 ^ 52, e + 1) else (m, e)
    if 1023 < e then infinity neg
    else if m < 2 ^ 52 then ofBits neg 0 m
    else ofBits neg (e + 1023).toNat (m - 2 ^ 52)

/-- The double nearest to an integer. -/
def ofInt (i : Int) : Binary64 := ofQuotient (i < 0) i.natAbs 1

def toFloat (x : Binary64) : Float := Float.ofBits x.bits

/-- A computed result; an invalid operation gives its operand's NaN if one was NaN. -/
def ofFloat (operands : List Binary64) (y : Float) : Binary64 :=
  if y.isNaN then
    match operands.find? isNaN with
    | some x => ⟨x.bits ||| 0x0008000000000000⟩
    | none => invalid
  else ⟨y.toBits⟩

def neg (x : Binary64) : Binary64 := ⟨x.bits ^^^ 0x8000000000000000⟩

def map (f : Float → Float) (x : Binary64) : Binary64 := ofFloat [x] (f x.toFloat)

def map₂ (f : Float → Float → Float) (x y : Binary64) : Binary64 :=
  ofFloat [x, y] (f x.toFloat y.toFloat)

def add : Binary64 → Binary64 → Binary64 := map₂ (· + ·)
def sub : Binary64 → Binary64 → Binary64 := map₂ (· - ·)
def mul : Binary64 → Binary64 → Binary64 := map₂ (· * ·)
def div : Binary64 → Binary64 → Binary64 := map₂ (· / ·)

/-- Numeric equality: NaN differs from itself, and the zeros are equal. -/
def eq (x y : Binary64) : Bool := x.toFloat == y.toFloat

def lt (x y : Binary64) : Bool := x.toFloat < y.toFloat

def le (x y : Binary64) : Bool := x.toFloat ≤ y.toFloat

/-- The largest integer not above the double, if it is finite. -/
def floor? (x : Binary64) : Option Int :=
  match x.parts with
  | .finite neg m q =>
    let signed : Int := if neg then -(m : Int) else m
    let scale (e : Int) : Int := ((2 ^ e.toNat : Nat) : Int)
    some (if 0 ≤ q then signed * scale q else signed.fdiv (scale (-q)))
  | _ => none

/-- The smallest integer not below the double, if it is finite. -/
def ceil? (x : Binary64) : Option Int := x.neg.floor?.map (-·)

/-- The integer a double equals, if there is one. -/
def toInt? (x : Binary64) : Option Int :=
  match x.floor?, x.ceil? with
  | some a, some b => if a = b then some a else none
  | _, _ => none

/-- The remainder of a truncated division, with the sign of the dividend. -/
def remainder (x y : Binary64) : Binary64 :=
  if x.isNaN || y.isNaN then ofFloat [x, y] (0.0 / 0.0)
  else match x.parts, y.parts with
  | .finite neg m q, .finite _ n r =>
    if n = 0 then invalid
    else
      let low := min q r
      let rest := m * 2 ^ (q - low).toNat % (n * 2 ^ (r - low).toNat)
      ofQuotient neg (rest * 2 ^ low.toNat) (2 ^ (-low).toNat)
  | .finite .., .infinite _ => x
  | _, _ => invalid

end Binary64
end LuaEmbed
