import LuaEmbed.Bridge.Index
import LuaEmbed.Host.World

/-!
Operations on a stack as a list of slots. Each either does what it says or fails and leaves the
stack as it was.
-/
namespace LuaEmbed

open Engine

/-- What a check says, as part of an operation. -/
def Api.check {σ μ α : Type} (r : Except Error α) : Api σ μ α := fun w => (r, w)

/-- A change of the world that cannot fail. -/
def Api.modify {σ μ : Type} (f : World σ μ → World σ μ) : Api σ μ Unit := fun w => (.ok (), f w)

namespace Context

variable {σ μ : Type} (c : Context)

/-- How many slots the stack has. -/
def top : Api σ μ Int := fun w => (.ok (w.depth c), w)

/-- The position an index names. -/
def resolve (index : Int) : Api σ μ Int := do
  Api.check (Index.resolve index (← c.top))

/-- Makes room for more values. -/
def checkStack (extra : Int) : Api σ μ Unit := fun w =>
  if extra ≤ 0 then (.ok (), w)
  else
    match w.reserve c extra.toNat with
    | (true, w) => (.ok (), w)
    | (false, w) => (.error (.stackOverflow extra), w)

/-- Makes room for a number of values that may be too large to state. -/
def checkStackFor (count : Nat) : Api σ μ Unit := do
  if Word32.greatest < count then throw (.stackOverflow Word32.greatest)
  c.checkStack count

/-- Cuts the stack to a depth, or fills it up with nil. -/
def cut (depth : Nat) : Api σ μ Unit :=
  Api.modify (·.modifySlots c fun s => s.shrink depth ++ Array.replicate (depth - s.size) .nil)

/-- Sets the depth: a number of slots, or a negative index whose slot becomes the top. -/
def setTop (n : Int) : Api σ μ Unit := do
  let target ← if n < 0 then c.resolve n else pure n
  let depth ← c.top
  if depth < target then c.checkStack (target - depth)
  c.cut target.toNat

def pop (count : Int) : Api σ μ Unit := do
  if count = 0 then return
  let depth ← c.top
  discard (Api.check (Index.resolveWindow count none depth))
  c.cut (depth - count).toNat

/-- Removes a slot; those above it move down. -/
def remove (index : Int) : Api σ μ Unit := do
  let pos ← c.resolve index
  Api.modify (·.modifySlots c fun s => s.eraseIdxIfInBounds (pos - 1).toNat)

/-- Pushes a copy of a slot. -/
def duplicate (index : Int) : Api σ μ Unit := do
  let pos ← c.resolve index
  c.checkStack 1
  Api.modify fun w => w.push c (w.at_ c pos)

/-- Moves the top value into a slot. -/
def replace (index : Int) : Api σ μ Unit := do
  let pos ← c.resolve index
  Api.modify (·.modifySlots c fun s => (s.setIfInBounds (pos - 1).toNat (s.back?.getD .nil)).pop)

/-- A list whose last `k` elements come first. -/
def rotated (k : Nat) (vs : List Val) : List Val :=
  vs.drop (vs.length - k) ++ vs.take (vs.length - k)

/-- Rotates the window from a slot to the top, by so many places toward the top. -/
def rotate (index amount : Int) : Api σ μ Unit := do
  let pos ← c.resolve index
  let depth ← c.top
  let shift := (amount % (depth - pos + 1)).toNat
  if shift ≠ 0 then
    Api.modify (·.modifySlots c fun s =>
      s.shrink (pos - 1).toNat ++ (rotated shift (s.toList.drop (pos - 1).toNat)).toArray)

/-- Copies one slot over another. -/
def copy (source target : Int) : Api σ μ Unit := do
  let i ← c.resolve source
  let j ← c.resolve target
  Api.modify (·.modifySlots c fun s =>
    s.setIfInBounds (j - 1).toNat (s.getD (i - 1).toNat .nil))

def typeOf (index : Int) : Api σ μ TypeTag := do
  let pos ← c.resolve index
  return ((← get).at_ c pos).tag

/-- Primitive length: bytes of a text, a border of a table, size of a userdata. -/
def rawLen (index : Int) : Api σ μ Nat := do
  let pos ← c.resolve index
  let w ← get
  return (w.heap c.vm).rawLength (w.at_ c pos)

end Context
end LuaEmbed
