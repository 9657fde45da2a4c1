import LuaEmbed.Engine.Action

/-!
Functions on numbers.
-/
namespace LuaEmbed.Library.Mathematics

open Engine

variable (args : Args)

/-- A float as an integer if it fits, and as it is otherwise. -/
def ofFloat (x : Binary64) : Val :=
  match x.toInt?.bind Number.inInt64 with
  | some i => .int i
  | none => .float x

def abs : Native (List Val) := do
  match args.at_ 1 with
  | .int i => return [.int (if i < 0 then -i else i)]
  | _ => return [.float ((← args.float 1).map Float.abs)]

def rounded (f : Float → Float) : Native (List Val) := do
  match ← args.number 1 with
  | .int i => return [.int i]
  | .float x => return [ofFloat (x.map f)]

/-- The value that no other one passes, the first of equal ones. -/
def best (passes : Val → Val → Native Bool) (acc : Val) : List Val → Native Val
  | [] => return acc
  | v :: vs => do
    best passes (if ← passes v acc then v else acc) vs

def max : Native (List Val) := do
  let first ← args.any 1
  return [← best (fun v acc => Native.lessThan acc v args) first (List.drop 1 args)]

def min : Native (List Val) := do
  let first ← args.any 1
  return [← best (fun v acc => Native.lessThan v acc args) first (List.drop 1 args)]

def fmod : Native (List Val) := do
  match args.at_ 1, args.at_ 2 with
  | .int a, .int b =>
    if b = 0 then Native.badArgument 2 "zero"
    return [.int (Int64.ofInt (Int.tmod a.toInt b.toInt))]
  | _, _ => do
    let a ← args.float 1
    let b ← args.float 2
    return [.float (a.remainder b)]

/-- The part before the point and, as a float, the part after it. -/
def modf : Native (List Val) := do
  match args.at_ 1 with
  | .int i => return [.int i, .float (.zero false)]
  | _ =>
    let x ← args.float 1
    let whole := if x.lt (.zero false) then x.map Float.ceil else x.map Float.floor
    let rest := if x.eq whole then .zero false else x.sub whole
    return [.float whole, .float rest]

def onFloat (f : Float → Float) : Native (List Val) := do
  return [.float ((← args.float 1).map f)]

def log : Native (List Val) := do
  let x ← args.float 1
  if args.isNoneOrNil 2 then return [.float (x.map Float.log)]
  let b ← args.float 2
  if b.eq (.ofInt 2) then return [.float (x.map Float.log2)]
  if b.eq (.ofInt 10) then return [.float (x.map Float.log10)]
  return [.float ((x.map Float.log).div (b.map Float.log))]

def atan : Native (List Val) := do
  let y ← args.float 1
  let x ← if args.isNoneOrNil 2 then pure (.ofInt 1) else args.float 2
  return [.float (.map₂ Float.atan2 y x)]

def pow : Native (List Val) := do
  return [.float (.map₂ Float.pow (← args.float 1) (← args.float 2))]

/-- Scaling by a number: degrees and radians. -/
def scaled (f : Float → Float) : Native (List Val) := onFloat args f

def pi : Float := 3.141592653589793

def ult : Native (List Val) := do
  let a ← args.integer 1
  let b ← args.integer 2
  return [.bool (a.toUInt64 < b.toUInt64)]

def tointeger : Native (List Val) := do
  match (← args.any 1).toInteger? with
  | some i => return [.int i]
  | none => return [.nil]

def type : Native (List Val) := do
  match ← args.any 1 with
  | .int _ => return [.text "integer"]
  | .float _ => return [.text "float"]
  | _ => return [.nil]

/-- A fraction of magnitude from a half up to one and the power of two that scales it. -/
def frexp : Native (List Val) := do
  let x ← args.float 1
  match x.parts with
  | .finite neg m q =>
    if m = 0 then return [.float x, .int 0]
    let e := m.log2 + 1
    return [.float (.ofQuotient neg m (2 ^ e)), .ofInt (q + e)]
  | _ => return [.float x, .int 0]

def ldexp : Native (List Val) := do
  let x ← args.float 1
  let e := (← args.integer 2).toInt
  match x.parts with
  | .finite neg m q =>
    let e := q + Max.max (-3000) (Min.min 3000 e)
    return [.float (.ofQuotient neg (m * 2 ^ e.toNat) (2 ^ (-e).toNat))]
  | _ => return [.float x]

end LuaEmbed.Library.Mathematics
