import LuaEmbed.Engine.Code

/-!
Arithmetic and comparison of numbers. Integers wrap around; an operation on an integer and a
float converts the integer, while comparison is exact.
-/
namespace LuaEmbed.Engine

inductive ArithFault where
  | divideByZero
  | moduloByZero
  /-- A number of a bitwise operation equals no integer that fits. -/
  | noInteger
  deriving DecidableEq

namespace Arith

/-- The quotient rounded down. -/
def floorDiv (a b : Int64) : Int64 := Int64.ofInt (Int.fdiv a.toInt b.toInt)

/-- The remainder with the sign of the divisor. -/
def floorMod (a b : Int64) : Int64 := Int64.ofInt (Int.fmod a.toInt b.toInt)

/-- Shifts left, or right by a negative amount, filling with zeros. -/
def shiftLeft (a b : Int64) : Int64 :=
  let n := b.toInt
  let bits := a.toUInt64.toNat
  if 64 ≤ n ∨ n ≤ -64 then 0
  else if 0 ≤ n then Int64.ofNat (bits * 2 ^ n.toNat)
  else Int64.ofNat (bits / 2 ^ (-n).toNat)

def power (x y : Binary64) : Binary64 :=
  if y.bits = (2.0 : Float).toBits then x.mul x else Binary64.map₂ Float.pow x y

/-- The remainder of floats with the sign of the divisor. -/
def modFloat (x y : Binary64) : Binary64 :=
  let r := x.remainder y
  let zero := Binary64.zero false
  if (if zero.lt r then y.lt zero else r.lt zero && zero.lt y) then r.add y else r

def floorFloat (x : Binary64) : Binary64 := x.map Float.floor

def onFloats (op : ArithOp) (x y : Binary64) : Binary64 :=
  match op with
  | .add => x.add y
  | .sub => x.sub y
  | .mul => x.mul y
  | .div => x.div y
  | .pow => power x y
  | .idiv => floorFloat (x.div y)
  | .mod => modFloat x y
  | .neg => x.neg
  | _ => x

def onInts (op : ArithOp) (a b : Int64) : Except ArithFault Int64 :=
  match op with
  | .add => .ok (a + b)
  | .sub => .ok (a - b)
  | .mul => .ok (a * b)
  | .idiv => if b = 0 then .error .divideByZero else .ok (floorDiv a b)
  | .mod => if b = 0 then .error .moduloByZero else .ok (floorMod a b)
  | .band => .ok (a &&& b)
  | .bor => .ok (a ||| b)
  | .bxor => .ok (a ^^^ b)
  | .shl => .ok (shiftLeft a b)
  | .shr => .ok (shiftLeft a (-b))
  | .neg => .ok (-a)
  | .bnot => .ok (~~~a)
  | _ => .ok 0

/-- An operation on two numbers; those of one operand take it twice. -/
def apply (op : ArithOp) (a b : Number) : Except ArithFault Number :=
  if op.isBitwise then
    match a.toInt64?, b.toInt64? with
    | some i, some j => (onInts op i j).map .int
    | _, _ => .error .noInteger
  else
    match a, b with
    | .int i, .int j =>
      match op with
      | .div | .pow => .ok (.float (onFloats op a.toFloat b.toFloat))
      | _ => (onInts op i j).map .int
    | _, _ => .ok (.float (onFloats op a.toFloat b.toFloat))

/-- Whether one number is below another. -/
def lt : Number → Number → Bool
  | .int a, .int b => a < b
  | .float a, .float b => a.lt b
  | .int a, .float b =>
    match b.parts with
    | .nan => false
    | .infinite neg => !neg
    | .finite .. => match b.ceil? with | some c => a.toInt < c | none => false
  | .float a, .int b =>
    match a.parts with
    | .nan => false
    | .infinite neg => neg
    | .finite .. => match a.floor? with | some c => c < b.toInt | none => false

def le : Number → Number → Bool
  | .int a, .int b => a ≤ b
  | .float a, .float b => a.le b
  | .int a, .float b =>
    match b.parts with
    | .nan => false
    | .infinite neg => !neg
    | .finite .. => match b.floor? with | some c => a.toInt ≤ c | none => false
  | .float a, .int b =>
    match a.parts with
    | .nan => false
    | .infinite neg => neg
    | .finite .. => match a.ceil? with | some c => c ≤ b.toInt | none => false

end Arith
end LuaEmbed.Engine
