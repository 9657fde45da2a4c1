/-!
The types a stack slot can report, with the interpreter's numeric codes.
-/
namespace LuaEmbed

/-- The type of a stack slot; `none` is that of a position past the top. -/
inductive TypeTag where
  | none | nil | boolean | lightUserdata | number | string | table | function | userdata | thread
  deriving DecidableEq, Inhabited, Repr

namespace TypeTag

/-- Codes outside `0` to `8` mean no value. -/
def ofCode (code : Int) : TypeTag :=
  if code = 0 then .nil
  else if code = 1 then .boolean
  else if code = 2 then .lightUserdata
  else if code = 3 then .number
  else if code = 4 then .string
  else if code = 5 then .table
  else if code = 6 then .function
  else if code = 7 then .userdata
  else if code = 8 then .thread
  else .none

/-- The name a script sees; both kinds of userdata share one. -/
def name : TypeTag → String
  | none => "no value"
  | nil => "nil"
  | boolean => "boolean"
  | lightUserdata => "userdata"
  | number => "number"
  | string => "string"
  | table => "table"
  | function => "function"
  | userdata => "userdata"
  | thread => "thread"

/-- Values of these types stay inside the interpreter and are read as handles. -/
def isOpaqueKind : TypeTag → Bool
  | table | function | userdata | lightUserdata => true
  | _ => false

end TypeTag
end LuaEmbed
