import LuaEmbed.Bridge.Error
import LuaEmbed.Bridge.Word32

/-!
Stack indices. Positive ones count from the bottom, the first slot being 1; negative ones count
from the top, the top slot being -1; zero names no slot.
-/
namespace LuaEmbed.Index

/-- The absolute position that an index names on a stack of `depth` slots. -/
def resolve (index depth : Int) : Except Error Int :=
  let position :=
    if index < 0 then Word32.saturate (Word32.saturate (depth + index) + 1) else index
  if index = 0 ∨ position < 1 ∨ depth < position then .error (.index index depth)
  else .ok position

/-- The first position of a window of `count` slots that starts at an index, or ends at the top if
none is given. A window that does not fit is reported by the index of its last slot. -/
def resolveWindow (count : Int) (start : Option Int) (depth : Int) : Except Error Int :=
  if count < 0 then .error (.index (start.getD count) depth)
  else do
    let first ← resolve (start.getD (Word32.wrap (-count))) depth
    match Word32.checked? (Word32.wrap (first - 1) + count) with
    | some last =>
      if last ≤ depth then .ok first
      else .error (.index (Word32.saturate (Word32.saturate (first + count) - 1)) depth)
    | none => .error (.index (Word32.saturate (Word32.saturate (first + count) - 1)) depth)

end LuaEmbed.Index
