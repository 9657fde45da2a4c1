import LuaEmbed.Engine.Action

/-!
Threads: stacks of frames, each with slots of its own. How many slots a thread may still reserve
depends on its size, which grows by doubling up to a limit; a refused growth leaves some extra
room for handling the error.
-/
namespace LuaEmbed.Engine

/-- Where a script's local lives: in its frame or, once a function has captured it, in the heap. -/
inductive Slot where
  | plain (v : Val)
  | boxed (cell : Nat)
  deriving Inhabited

/-- A script function in progress. -/
structure Activation where
  proto : Proto
  cells : Array Nat
  extra : List Val
  slots : Array Slot
  pc : Nat := 0
  /-- Slots to be closed, latest first. -/
  closers : List Nat := []
  deriving Inhabited

/-- What runs in a frame. Slots of a native function are seen by whoever looks at the stack. -/
inductive Level where
  | native (slots : Array Val)
  | script (a : Activation)

instance : Inhabited Level := ⟨.native #[]⟩

/-- What a frame waits for. -/
inductive Await where
  | idle
  /-- A protected call made by the host. -/
  | guarded
  /-- The body of a coroutine. -/
  | started
  | body (k : List Val → Heap → Heap × Action)
  | caught (handler : Option Val) (k : Except Val (List Val) → Heap → Heap × Action)
  /-- Results to be pushed: so many, or all. -/
  | push (want : Option Nat)
  /-- A method, to be pushed with its object. -/
  | method (object : Val)
  /-- A result to be tested, and the test negated if so stated. -/
  | test (negate : Bool)
  | drop
  /-- Results to be returned in turn. -/
  | returning
  /-- What a message handler makes of an error. -/
  | handler (status : ErrorStatus)
  /-- Variables being closed before an error, if there is one, is handed to the one who waited. -/
  | closing (rest : List Val) (error : Option (ErrorStatus × Val)) (back : Await)
  | yielded

instance : Inhabited Await := ⟨.idle⟩

structure Frame where
  level : Level
  await : Await := .idle
  fn : Val := .nil
  /-- How the caller named the function. -/
  name : Option Origin := none
  /-- Slots of the thread below the frame's own. -/
  base : Nat := 1
  /-- The slot up to which room is reserved. -/
  limit : Nat := 21
  /-- How deeply native calls are nested. -/
  depth : Nat := 0
  canYield : Bool := false
  deriving Inhabited

inductive ThreadStatus where
  | ready | yielded
  | failed (status : ErrorStatus)
  deriving DecidableEq, Inhabited

def ThreadStatus.isFailed : ThreadStatus → Bool
  | failed _ => true
  | _ => false

/-- A thread: its frames, latest first, above the base frame, which it always has. -/
structure Thread where
  above : List Frame := []
  ground : Frame := { level := .native #[] }
  status : ThreadStatus := .ready
  /-- Slots there is room for. -/
  size : Nat := 40
  deriving Inhabited

namespace Activation

/-- A slot's value. -/
def read (h : Heap) : Slot → Val
  | .plain v => v
  | .boxed c => h.cell c

def values (a : Activation) (h : Heap) : Array Val := a.slots.map (read h)

end Activation

namespace Frame

def count (f : Frame) : Nat :=
  match f.level with
  | .native s => s.size
  | .script a => a.slots.size

/-- Slots of the thread in use up to and including the frame's. -/
def used (f : Frame) : Nat := f.base + f.count

/-- The slots of a native frame; a script's are not shown. -/
def slots (f : Frame) : Array Val :=
  match f.level with
  | .native s => s
  | .script _ => #[]

def setSlots (f : Frame) (s : Array Val) : Frame := { f with level := .native s }

def isScript (f : Frame) : Bool :=
  match f.level with
  | .native _ => false
  | .script _ => true

/-- The line being executed, if it is known. -/
def line? (f : Frame) : Option Nat :=
  match f.level with
  | .native _ => none
  | .script a => a.proto.lines[a.pc - 1]?

/-- Where a script frame stands, as errors tell it. -/
def position? (f : Frame) : Option Bytes :=
  match f.level with
  | .native _ => none
  | .script a =>
    let source : Bytes := match a.proto.source with
      | some s => chunkId s
      | none => "?"
    let line := match f.line? with
      | some n => toString n
      | none => "-1"
    some (source ++ ":" ++ line ++ ": ")

end Frame

namespace Thread

def maxSize : Nat := 1000000

/-- The size after a refused growth. -/
def errorSize : Nat := 1000200

def minRoom : Nat := 20

variable (t : Thread)

/-- The frame on top. -/
def top : Frame := t.above.headD t.ground

def setTop (f : Frame) : Thread :=
  match t.above with
  | [] => { t with ground := f }
  | _ :: rest => { t with above := f :: rest }

/-- Changes the frame on top. -/
def modifyTop (g : Frame → Frame) : Thread :=
  match t with
  | ⟨[], f, s, n⟩ => ⟨[], g f, s, n⟩
  | ⟨f :: rest, b, s, n⟩ => ⟨g f :: rest, b, s, n⟩

def setAwait (a : Await) : Thread := t.modifyTop ({ · with await := a })

def pushFrame (f : Frame) : Thread := { t with above := f :: t.above }

def popFrame : Thread := { t with above := t.above.tail }

/-- Whether the thread is in the middle of a run: it runs, or waits for a thread that it resumed. -/
def isRunning : Bool := t.status = .ready && !t.above.isEmpty

/-- All frames, latest first. -/
def frames : List Frame := t.above ++ [t.ground]

def slots : Array Val := t.top.slots

/-- How many slots whoever looks at the stack sees. -/
def depth : Nat := t.top.count

def used : Nat := t.top.used

/-- The size a thread gets to hold `n` more slots above those in use; `none` if it may not grow
so far, and then the size it has from then on. -/
def grownSize (size used n : Nat) : Except Nat Nat :=
  if n < size - used then .ok size
  else if maxSize < size then .error size
  else
    let needed := used + n
    let wanted := max (min (2 * size) maxSize) needed
    if n < maxSize ∧ wanted ≤ maxSize then .ok wanted else .error errorSize

/-- Reserves `n` slots above those in use; `none` if that is refused. While allocation fails, a
stack does not grow. -/
def reserve (starved : Bool) (n : Nat) : Bool × Thread :=
  match grownSize t.size t.used n with
  | .ok size =>
    if starved && size ≠ t.size then (false, t)
    else
      let limit := t.used + n
      (true, { t with size }.modifyTop fun f => { f with limit := max f.limit limit })
  | .error size =>
    if starved && size ≠ t.size then (false, t) else (false, { t with size })

/-- Slots that the frames reserve. -/
def inUse : Nat :=
  max (t.frames.foldl (fun n f => max n f.limit) t.used + 1) minRoom

/-- Gives back room that is not in use. -/
def shrink : Thread :=
  let n := t.inUse
  let bound := if maxSize / 3 < n then maxSize else 3 * n
  if n ≤ maxSize - 5 ∧ bound < t.size then
    { t with size := if maxSize / 2 < n then maxSize else 2 * n }
  else t

/-- Slots that can still be reserved, and one. -/
def room : Nat := maxSize + 1 - t.used

/-- The position of the function so many levels up from the running one; empty if it is not a
script. -/
def positionOf (level : Nat) : Bytes :=
  match t.above[level]? with
  | some f => if f.line?.isSome then f.position?.getD .empty else .empty
  | none => .empty

end Thread

/-- A coroutine's stack with a function on it. -/
def Thread.new (slots : Array Val) : Thread :=
  { ground := { level := .native slots, canYield := true } }

end LuaEmbed.Engine
