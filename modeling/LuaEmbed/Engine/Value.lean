import LuaEmbed.Bridge.TypeTag
import LuaEmbed.Engine.Builtin
import LuaEmbed.Number.Numeral
import LuaEmbed.Number.Format
import Std.Data.TreeMap

/-!
The values scripts compute with, the order that keys of tables are kept in, and the conversions
between numbers and text.
-/
namespace LuaEmbed.Engine

/-- A value of the scripting language. Objects are named by their place in the heap. -/
inductive Val where
  | nil
  | bool (b : Bool)
  | int (i : Int64)
  | float (x : Binary64)
  | str (s : Bytes)
  | light (address : Nat)
  | table (id : Nat)
  | builtin (f : Builtin)
  | closure (id : Nat)
  | userdata (id : Nat)
  | thread (id : Nat)
  deriving DecidableEq, Inhabited

namespace Val

def text (s : String) : Val := .str (Bytes.ofString s)

def ofNumber : Number → Val
  | .int i => .int i
  | .float x => .float x

def tag : Val → TypeTag
  | nil => .nil
  | bool _ => .boolean
  | int _ | float _ => .number
  | str _ => .string
  | light _ => .lightUserdata
  | table _ => .table
  | builtin _ | closure _ => .function
  | userdata _ => .userdata
  | thread _ => .thread

/-- The type name a script sees. -/
def typeName (v : Val) : String := v.tag.name

/-- Only nil and false fail a test. -/
def truthy : Val → Bool
  | nil | bool false => false
  | _ => true

def isNil : Val → Bool
  | nil => true
  | _ => false

/-- A number identifying an object among those of its type. -/
def address : Val → Nat
  | light p => p
  | table i | userdata i | thread i => 32 * (i + 1)
  | builtin f => 16 * (2 * f.address + 1)
  | closure i => 32 * (i + 1)
  | _ => 0

/-- Place of a value's type in the order of keys. -/
def rank : Val → Nat
  | nil => 0
  | bool _ => 1
  | int _ => 2
  | float _ => 3
  | str _ => 4
  | light _ => 5
  | table _ => 6
  | builtin _ => 7
  | closure _ => 8
  | userdata _ => 9
  | thread _ => 10

/-- Place of a value among those of its type, numbers and texts aside. -/
def serial : Val → Nat
  | bool b => b.toNat
  | float x => x.bits.toNat
  | light p => p
  | builtin f => f.address
  | table i | closure i | userdata i | thread i => i
  | _ => 0

/-- The order that tables keep their keys in: integers ascend. -/
def order : Val → Val → Ordering
  | int a, int b => compare a b
  | str a, str b => Bytes.order a b
  | a, b => (compare a.rank b.rank).then (compare a.serial b.serial)

/-- A float that equals an integer is the same key as that integer. -/
def normalKey : Val → Val
  | float x =>
    match x.toInt? with
    | some i =>
      if Int64.minValue.toInt ≤ i ∧ i ≤ Int64.maxValue.toInt then int (Int64.ofInt i)
      else float x
    | none => float x
  | v => v

/-- Equality without metamethods: an integer equals a float of the same value. -/
def rawEqual : Val → Val → Bool
  | float a, float b => a.eq b
  | int a, float b => b.toInt? = some a.toInt
  | float a, int b => a.toInt? = some b.toInt
  | a, b => a = b

def number? : Val → Option Number
  | int i => some (.int i)
  | float x => some (.float x)
  | _ => none

/-- A number, or a text that denotes one. -/
def toNumber? : Val → Option Number
  | int i => some (.int i)
  | float x => some (.float x)
  | str s => Numeral.parse? s.data.toList
  | _ => none

end Val

end LuaEmbed.Engine

namespace LuaEmbed.Number

def inInt64 (i : Int) : Option Int64 :=
  if Int64.minValue.toInt ≤ i ∧ i ≤ Int64.maxValue.toInt then some (Int64.ofInt i) else none

/-- A number as an integer, if it equals one that fits. -/
def toInt64? : Number → Option Int64
  | .int i => some i
  | .float x => x.toInt?.bind inInt64

def toFloat : Number → Binary64
  | .int i => .ofInt i.toInt
  | .float x => x

def text : Number → String
  | .int i => toString i
  | .float x => Format.floatText x

end LuaEmbed.Number

namespace LuaEmbed.Engine

namespace Val

/-- An integer, a float or a text equal to an integer that fits. -/
def toInteger? (v : Val) : Option Int64 := v.toNumber?.bind Number.toInt64?

/-- A text, or the text of a number. -/
def toText? : Val → Option Bytes
  | str s => some s
  | int i => some (Bytes.ofString (Number.text (.int i)))
  | float x => some (Bytes.ofString (Number.text (.float x)))
  | _ => none

end Val
end LuaEmbed.Engine
