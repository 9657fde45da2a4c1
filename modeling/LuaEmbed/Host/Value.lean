import LuaEmbed.Bridge.Handle
import LuaEmbed.Number.Decimal
import LuaEmbed.Text.Utf8

/-!
Values on the host's side. Plain ones are copies; functions, threads and foreign objects are
references to counted objects; whatever stays inside an interpreter is known by a handle.
-/
namespace LuaEmbed

/-- The two ways to call a host function: on the stack as it is, or over lists of values. -/
inductive FunctionShape where
  | raw | list
  deriving DecidableEq, Inhabited

def FunctionShape.name : FunctionShape → String
  | raw => "raw"
  | list => "list"

/-- A reference to a thread, which keeps it alive through its anchor. -/
structure ThreadHandle where
  thread : StackId
  anchor : Nat
  deriving DecidableEq, Inhabited

/-- A value crossing the bridge. -/
inductive Value where
  | nil
  | bool (b : Bool)
  | int (i : Int64)
  | float (x : Binary64)
  | text (s : Bytes)
  | function (shape : FunctionShape) (id : Nat)
  | thread (h : ThreadHandle)
  | handle (h : Handle)
  | foreign (id : Nat)
  deriving Inhabited

namespace Value

def isNil : Value → Bool
  | nil => true
  | _ => false

/-- Whether a value refers to a counted object. -/
def isCounted : Value → Bool
  | function .. | thread _ | foreign _ => true
  | _ => false

/-- Only nil and false fail a test. -/
def truthy : Value → Bool
  | nil | bool false => false
  | _ => true

def asBool? : Value → Option Bool
  | bool b => some b
  | _ => none

/-- The integer; a float is not one, whatever its value. -/
def asInt? : Value → Option Int64
  | int i => some i
  | _ => none

def asFloat? : Value → Option Binary64
  | float x => some x
  | _ => none

def asText? : Value → Option Bytes
  | text s => some s
  | _ => none

/-- The text, if it is well-formed. -/
def asString? (v : Value) : Option String := v.asText?.bind Bytes.toString?

def asHandle? : Value → Option Handle
  | handle h => some h
  | _ => none

def asThread? : Value → Option ThreadHandle
  | thread h => some h
  | _ => none

/-- The kind of a value, for diagnostics. -/
def kind : Value → String
  | nil => "nil"
  | bool _ => "boolean"
  | int _ => "integer"
  | float _ => "float"
  | text _ => "string"
  | function .. => "host function"
  | thread _ => "thread"
  | handle h => h.tag.name
  | foreign _ => "foreign"

/-- Equality: floats compare as numbers, threads by what they refer to, and objects by identity.
Values of different kinds differ. -/
def same : Value → Value → Bool
  | nil, nil => true
  | bool a, bool b => a = b
  | int a, int b => a = b
  | float a, float b => a.eq b
  | text a, text b => a = b
  | function s a, function t b => s = t && a = b
  | thread a, thread b => a.thread = b.thread
  | handle a, handle b => a = b
  | foreign a, foreign b => a = b
  | _, _ => false

/-- How an object's address is shown. -/
def address (kind n : Nat) : String :=
  "0x" ++ String.ofList (Nat.toDigits 16 (0x5500000000 + 0x100000000 * kind + 16 * n))

/-- A value as diagnostics show it. -/
def describe : Value → String
  | nil => "nil"
  | bool b => if b then "true" else "false"
  | int i => toString i
  | float x => Decimal.diagnostic.render x
  | text s => Quoted.quote s.toStringLossy
  | function s id => s!"host function ({s.name}): {address 1 id}"
  | thread h => s!"thread: {address 2 h.thread.thread}"
  | handle h => s!"<{h.name}>"
  | foreign id => s!"foreign: {address 3 id}"

end Value

namespace Value

instance : Coe Bool Value := ⟨.bool⟩

/-- A text value of a literal. -/
def ofString (s : String) : Value := .text (Bytes.ofString s)

/-- Nothing is nil. -/
def ofOption : Option Value → Value
  | some v => v
  | none => .nil

end Value
end LuaEmbed
