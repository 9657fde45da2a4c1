import LuaEmbed.Engine.Compiler
import LuaEmbed.Engine.Operation

/-!
What a native function asks of the machine that runs it. A function is a program over the heap
that stops to have a value called, to yield, to resume another thread and so on, and goes on from
there with the answer; so calls nest on the machine's frames and never inside a native function.
-/
namespace LuaEmbed.Engine

/-- What a native function can learn about where it runs. -/
structure Situation where
  thread : Nat
  isMain : Bool
  canYield : Bool
  /-- How deeply native calls are nested. -/
  depth : Nat
  /-- Slots that can still be reserved. -/
  room : Nat

/-- How a thread stands to the one asking. -/
inductive CoroutineStatus where
  | suspended | running | normal | dead
  deriving DecidableEq, Inhabited

/-- What an error is, to those who count kinds of errors. -/
inductive ErrorStatus where
  | runtime
  | memory
  /-- Failure while an error was being handled. -/
  | handling
  deriving DecidableEq, Inhabited

/-- The interpreter's code for a kind of error. -/
def ErrorStatus.code : ErrorStatus → Int
  | runtime => 2
  | memory => 4
  | handling => 5

/-- The next thing a native function does. -/
inductive Action where
  | ret (results : List Val)
  /-- Raises a value as it is. -/
  | raise (v : Val)
  | raiseMemory
  /-- Raises a message with the position of the caller so many levels up. -/
  | fail (level : Nat) (message : Bytes)
  /-- Complains about an argument. -/
  | badArgument (arg : Nat) (message : Bytes)
  /-- Calls a value, keeping some values alive meanwhile. -/
  | call (f : Val) (args keep : List Val) (canYield : Bool)
      (k : List Val → Heap → Heap × Action)
  /-- Calls a value and catches its errors, after a handler has seen them. -/
  | protect (f : Val) (args : List Val) (handler : Option Val)
      (k : Except Val (List Val) → Heap → Heap × Action)
  | yield (results : List Val)
  | resume (thread : Nat) (args : List Val)
      (k : Except Val (List Val) → Heap → Heap × Action)
  /-- Closes a thread, only if it has failed if so stated. -/
  | close (thread : Nat) (onlyFailed : Bool) (k : Option Val → Heap → Heap × Action)
  | status (thread : Nat) (k : CoroutineStatus → Heap → Heap × Action)
  | situation (k : Situation → Heap → Heap × Action)
  /-- Where the caller so many levels up stands, as text. -/
  | position (level : Nat) (k : Bytes → Heap → Heap × Action)
  | newThread (f : Val) (k : Val → Heap → Heap × Action)
  | collect (k : Heap → Heap × Action)
  /-- Lets go of what a host object's userdata carried. -/
  | release (payload : Payload) (k : Heap → Heap × Action)

instance : Inhabited Action := ⟨.ret []⟩

/-- A native function in progress, which will produce an `α`. -/
def Native (α : Type) : Type := (α → Heap → Heap × Action) → Heap → Heap × Action

namespace Native

instance : Monad Native where
  pure a := fun k => k a
  bind m f := fun k => m fun a => f a k

instance {α : Type} : Inhabited (Native α) := ⟨fun _ h => (h, default)⟩

/-- Runs a native function to its first request. -/
def start (m : Native (List Val)) (h : Heap) : Heap × Action := m (fun vs h => (h, .ret vs)) h

def heap : Native Heap := fun k h => k h h

def modifyHeap (f : Heap → Heap) : Native Unit := fun k h => k () (f h)

/-- Changes the heap and gives a result. -/
def onHeap {α : Type} (f : Heap → α × Heap) : Native α := fun k h =>
  let (a, h) := f h
  k a h

variable {α : Type}

def raise (v : Val) : Native α := fun _ h => (h, .raise v)

def raiseMemory : Native α := fun _ h => (h, .raiseMemory)

/-- Raises a message, with the caller's position. -/
def fail (message : Bytes) : Native α := fun _ h => (h, .fail 1 message)

/-- Raises a message of the interpreter itself, which a native function's position never
precedes. -/
def failHere (message : Bytes) : Native α := fun _ h => (h, .raise (.str message))

def badArgument (arg : Nat) (message : Bytes) : Native α := fun _ h => (h, .badArgument arg message)

/-- Calls a value; no yield may cross the call. -/
def call (f : Val) (args : List Val) (keep : List Val) : Native (List Val) :=
  fun k h => (h, .call f args keep false k)

/-- Calls a value; a yield may cross the call. -/
def callYieldable (f : Val) (args : List Val) (keep : List Val) : Native (List Val) :=
  fun k h => (h, .call f args keep true k)

def protect (f : Val) (args : List Val) (handler : Option Val) :
    Native (Except Val (List Val)) := fun k h => (h, .protect f args handler k)

/-- Gives up control; the arguments of the next resume become the function's results. -/
def yield (results : List Val) : Native α := fun _ h => (h, .yield results)

def resume (thread : Nat) (args : List Val) : Native (Except Val (List Val)) :=
  fun k h => (h, .resume thread args k)

/-- Closes a suspended or dead thread; gives the error left, if there is one. -/
def close (thread : Nat) : Native (Option Val) := fun k h => (h, .close thread false k)

/-- Closes a thread if it has failed. -/
def closeFailed (thread : Nat) : Native (Option Val) := fun k h => (h, .close thread true k)

def status (thread : Nat) : Native CoroutineStatus := fun k h => (h, .status thread k)

def situation : Native Situation := fun k h => (h, .situation k)

def position (level : Nat) : Native Bytes := fun k h => (h, .position level k)

def newThread (f : Val) : Native Val := fun k h => (h, .newThread f k)

def collect : Native Unit := fun k h => (h, .collect (k ()))

def release (p : Payload) : Native Unit := fun k h => (h, .release p (k ()))

/-- Refuses to go on while allocation fails. -/
def allocate : Native Unit := do
  if (← heap).starved then raiseMemory

def newTable (t : Table) : Native Val := do
  allocate
  onHeap (·.newTable t)

def newClosure (c : Closure) : Native Val := do
  allocate
  onHeap (·.newClosure c)

/-- A new text. -/
def text (b : Bytes) : Native Val := do
  allocate
  return .str b

/-- Settles an operation, calling a metamethod if it asks for one. -/
def settle (keep : List Val) (o : Outcome Val) : Native Val := do
  match o with
  | .done v => return v
  | .invoke f args => return (← call f args keep).headD .nil
  | .fault f => failHere (f.render (← heap) [])

/-- The value of a field. -/
def index (o k : Val) (keep : List Val) : Native Val := do
  settle keep (Operation.index (← heap) o k)

def setIndex (o k v : Val) (keep : List Val) : Native Unit := do
  match Operation.setIndex (← heap) o k v with
  | .done h => modifyHeap fun _ => h
  | .invoke f args => discard (call f args keep)
  | .fault f => failHere (f.render (← heap) [])

/-- Whether one value is below another. -/
def lessThan (a b : Val) (keep : List Val) : Native Bool := do
  let (o, negate) := Operation.compare (← heap) .lt a b
  match o with
  | .done r => return r
  | .invoke f args => return ((← call f args keep).headD .nil).truthy != negate
  | .fault f => failHere (f.render (← heap) [])

def equal (a b : Val) (keep : List Val) : Native Bool := do
  let (o, _) := Operation.compare (← heap) .eq a b
  match o with
  | .done r => return r
  | .invoke f args => return ((← call f args keep).headD .nil).truthy
  | .fault f => failHere (f.render (← heap) [])

end Native

/-- The arguments of a native function. -/
abbrev Args := List Val

namespace Args

/-- The argument at a position from 1 on; `none` if fewer were given. -/
def get? (args : Args) (i : Nat) : Option Val := (args : List Val)[i - 1]?

def at_ (args : Args) (i : Nat) : Val := (get? args i).getD .nil

def isNoneOrNil (args : Args) (i : Nat) : Bool := (at_ args i).isNil

variable {α : Type}

/-- The complaint that an argument has another type than expected. -/
def wrongType (args : Args) (i : Nat) (expected : Bytes) : Native α := do
  let h ← Native.heap
  let found : Bytes :=
    match get? args i with
    | none => "no value"
    | some v => declaredTypeName h v
  Native.badArgument i (expected ++ " expected, got " ++ found)

def any (args : Args) (i : Nat) : Native Val := do
  match get? args i with
  | some v => return v
  | none => Native.badArgument i "value expected"

def table (args : Args) (i : Nat) : Native Val := do
  match at_ args i with
  | .table t => return .table t
  | _ => wrongType args i "table"

def text (args : Args) (i : Nat) : Native Bytes := do
  match (at_ args i).toText? with
  | some s => return s
  | none => wrongType args i "string"

def integer (args : Args) (i : Nat) : Native Int64 := do
  match (at_ args i).toNumber? with
  | some n =>
    match n.toInt64? with
    | some v => return v
    | none => Native.badArgument i "number has no integer representation"
  | none => wrongType args i "number"

def number (args : Args) (i : Nat) : Native Number := do
  match (at_ args i).toNumber? with
  | some n => return n
  | none => wrongType args i "number"

def float (args : Args) (i : Nat) : Native Binary64 := do return (← number args i).toFloat

def integerOr (args : Args) (i : Nat) (default : Int) : Native Int := do
  if isNoneOrNil args i then return default else return (← integer args i).toInt

def textOr (args : Args) (i : Nat) (default : Bytes) : Native Bytes := do
  if isNoneOrNil args i then return default else text args i

def function (args : Args) (i : Nat) : Native Val := do
  match at_ args i with
  | .builtin f => return .builtin f
  | .closure f => return .closure f
  | _ => wrongType args i "function"

def thread (args : Args) (i : Nat) : Native Nat := do
  match at_ args i with
  | .thread t => return t
  | _ => wrongType args i "thread"

end Args

/-- An integer result. -/
def Val.ofNat (n : Nat) : Val := .int (Int64.ofNat n)

def Val.ofInt (i : Int) : Val := .int (Int64.ofInt i)

end LuaEmbed.Engine
