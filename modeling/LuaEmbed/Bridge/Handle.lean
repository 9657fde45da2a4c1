import LuaEmbed.Bridge.Error

/-!
Handles to values that stay inside the interpreter. A handle remembers where its value stood, its
type and its printed name, and is good only while the same slot still shows the same.
-/
namespace LuaEmbed

/-- Which stack: the thread of an interpreter instance. -/
structure StackId where
  vm : Nat
  thread : Nat
  deriving DecidableEq, Inhabited, Repr

/-- A description of a slot at the moment it was read. -/
structure Handle where
  tag : TypeTag
  name : String
  position : Int
  stack : StackId
  deriving DecidableEq, Inhabited

namespace Handle

def description (h : Handle) : TypeTag × String := (h.tag, h.name)

/-- Accepts a handle on the stack it came from while its slot, described by `current`, is
unchanged; `current` is `none` when the position is past the top. -/
def check (h : Handle) (stack : StackId) (current : Option (TypeTag × String)) :
    Except Error Unit :=
  match current with
  | some found =>
    if stack = h.stack then
      if found = h.description then .ok ()
      else .error (.stale h.position h.description found)
    else .error (.stale h.position h.description (.none, "another stack"))
  | none => .error (.stale h.position h.description (.none, "empty slot"))

end Handle
end LuaEmbed
