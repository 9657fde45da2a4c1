import LuaEmbed.Scenario.Step

/-!
What a scenario reports: for each step its answer or failure, the stack it left, and what happened
meanwhile.
-/
namespace LuaEmbed.Scenario

/-- A value as reports show it. -/
inductive Shown where
  | nil
  | bool (b : Bool)
  | int (i : Int64)
  | float (x : Binary64)
  | text (s : Bytes)
  | function (shape : FunctionShape)
  | thread
  | handle (h : Handle)
  | foreign (payload : String)
  deriving Inhabited

/-- The answer of a step. -/
inductive Answer where
  | none
  | flag (b : Bool)
  | number (n : Int)
  | word (s : String)
  | description (s : String)
  | tag (t : TypeTag)
  | status (s : Engine.CoroutineStatus)
  | value (v : Shown)
  | values (vs : List Shown)
  | yielded (vs : List Shown)
  | returned (vs : List Shown)
  | loaded (o : LoadOutcome)
  /-- A value's kind, whether it passes a test, and its diagnostic text. -/
  | facts (kind : String) (truthy : Bool) (description : String) (v : Shown)
  /-- An answer that is left out. -/
  | quiet
  deriving Inhabited

/-- Why a scenario could not carry a step out. -/
inductive Refusal where
  | busy
  | noState (id : Int)
  | notHandle
  | notThread (name : String)
  | notOpener
  deriving DecidableEq

def Refusal.message : Refusal → String
  | busy => "busy"
  | noState id => s!"no state {id}"
  | notHandle => "not a handle"
  | notThread name => s!"register {name} is not a thread"
  | notOpener => "not an opener"

inductive Failure where
  | refused (r : Refusal)
  /-- The stack to work on was not to be had. -/
  | unreached (e : Error)
  | failed (e : Error)

/-- A failure as the error of the function it ends. -/
def Failure.error : Failure → Error
  | refused r => .runtime r.message
  | unreached e | failed e => e

/-- The outcome of a step and the depth of the stack it worked on. -/
structure Result where
  outcome : Except Failure Answer
  top : Option Int := Option.none

/-- How a host function was left. -/
inductive Departure where
  | failed | panicked | error
  | count (n : Nat)
  | values (vs : List Shown)

inductive Event where
  | entered (name : String) (top : Int) (args : Option (List Shown))
  | performed (label : String) (r : Result)
  | left (name : String) (how : Departure)
  | notice (n : Notice)

/-- What a stack holds, unless that is too much. -/
inductive StackView where
  | large
  | values (vs : List Shown)

structure Report where
  result : Result
  stack : Option StackView
  events : List Event

/-- What a scenario remembers: its registers, its states and open views by name, which of them
are in use, the foreign objects it keeps, and the events since the last report, latest first. -/
structure Memory where
  registers : List (String × Value) := []
  states : List (Int × Nat) := []
  views : List (String × View) := []
  busyStates : List Int := []
  busyViews : List String := []
  foreigns : List (String × Nat) := []
  /-- The depth of the stack that was worked on last in the step at hand. -/
  depth : Option Int := Option.none
  /-- Whether log records are events. -/
  logging : Bool := false
  journal : List Event := []

namespace Memory

variable {α β : Type} [BEq α]

/-- Gives a key a value. -/
def assign (k : α) (v : β) (l : List (α × β)) : List (α × β) := (k, v) :: l.filter (·.1 != k)

/-- Takes a key away. -/
def unassign (k : α) (l : List (α × β)) : List (α × β) := l.filter (·.1 != k)

def note (e : Event) (m : Memory) : Memory := { m with journal := e :: m.journal }

/-- Takes a notice in. -/
def hear (n : Notice) (m : Memory) : Memory :=
  match n with
  | .fault .. => m.note (.notice n)
  | .log _ => if m.logging then m.note (.notice n) else m

end Memory
end LuaEmbed.Scenario
