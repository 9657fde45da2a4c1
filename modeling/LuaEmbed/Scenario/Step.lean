import LuaEmbed.Host.Owner

/-!
Scenarios: host programs written down as data. A scenario is a list of steps; a step names a task,
the stack it works on and the registers that take its results. Host functions are lists of steps
too. The parameter `φ` of the parts is how host functions are written down.

Scenarios are the outer layer, through which programs are run from outside. Each is a `Program` over
operations of the bridge; nothing else rests on them.
-/
namespace LuaEmbed.Scenario

/-- A text: given, repeated, joined, or held by a register. -/
inductive TextExpr where
  | bytes (s : Bytes)
  | repeated (t : TextExpr) (n : Nat)
  | joined (ts : List TextExpr)
  | register (name : String)

/-- A value: given, held by a register, an argument of the running function, or a new object. -/
inductive ValueExpr (φ : Type) where
  | value (v : Value)
  | text (t : TextExpr)
  | register (name : String)
  | argument (k : Nat)
  | function (shape : FunctionShape) (f : φ)
  | foreign (payload : String)

/-- A list of values; `latest` is what the last step with results gave. -/
inductive ListExpr (φ : Type) where
  | items (vs : List (ValueExpr φ))
  | copies (n : Nat) (v : ValueExpr φ)
  | latest

/-- What opens a module. -/
inductive OpenerExpr (φ : Type) where
  | native (f : Engine.Builtin)
  | host (v : ValueExpr φ)

/-- A stack that a step works on: that of a state, or of a view or thread with a name. -/
inductive Place where
  | state (id : Int)
  | named (name : String)

/-- Where results go: the first of them into a register, or each into one of its own. -/
inductive Target where
  | first (name : String)
  | each (names : List String)

/-- Tasks that concern no stack. -/
inductive FreeTask (φ : Type) where
  | newState (id : Int) (config : Config)
  | dropState (id : Int)
  | openView (thread name : String)
  | closeView (name : String)
  /-- Evaluates a value for a register. -/
  | keep (v : ValueExpr φ)
  | forget (name : String)
  /-- Makes a foreign object that the scenario keeps under a name. -/
  | keepForeign (payload name : String)
  /-- The number of references to such an object. -/
  | references (name : String)
  | same (a b : ValueExpr φ)
  | inspect (v : ValueExpr φ)
  | inspectOpener (o : OpenerExpr φ)
  | installHook (hook : FatalHook)
  | resetHook
  | hasHook

/-- Tasks on a stack. -/
inductive StackTask (φ : Type) where
  | top
  | resolve (index : Int)
  | setTop (n : Int)
  | checkStack (n : Int)
  | pop (n : Int)
  | remove (index : Int)
  | duplicate (index : Int)
  | replace (index : Int)
  | rotate (index amount : Int)
  | copy (source target : Int)
  | typeOf (index : Int)
  | rawLen (index : Int)
  | len (index : Int)
  | push (v : ValueExpr φ)
  | pushAll (vs : ListExpr φ)
  | read (index : Int)
  | readBatch (count : Int) (start : Option Int)
  /-- Reads the whole stack. -/
  | readStack
  | popValues (n : Int)
  | validate (v : ValueExpr φ)
  | readForeign (index : Int)
  | getGlobal (name : Bytes)
  | setGlobal (name : Bytes)
  /-- Whether a handle or thread belongs to this very stack. -/
  | sameStack (v : ValueExpr φ)
  | transfer (target : Place) (n : Int)
  | sameVm (other : Place)
  | load (chunk : TextExpr)
  | loadNamed (chunk : TextExpr) (name : String) (mode : LoadMode)
  | tryLoad (chunk : TextExpr)
  | call (args : ListExpr φ) (results : ResultCount)
  | callInPlace (args : ListExpr φ) (results : ResultCount)
  | registerModule (name : Bytes) (opener : OpenerExpr φ) (publish : Bool)
  | openLib (lib : StdLib)
  | openStdLibs
  | newThread
  | currentThread
  | belongs (thread : String)
  | status (thread : String)
  | resume (thread : String) (args : ListExpr φ)
  | fault
  | starve (on : Bool)

inductive Task (φ : Type) where
  | free (t : FreeTask φ)
  /-- On a stack, or on the one at hand. -/
  | stack (place : Option Place) (t : StackTask φ)

/-- A step: a task under the name it is reported by. -/
structure Step (φ : Type) where
  label : String
  task : Task φ
  target : Option Target := none
  /-- Whether the function goes on if the step fails. -/
  attempt : Bool := false
  /-- Whether the answer is left out of reports. -/
  quiet : Bool := false

/-- How a host function ends after its steps. -/
inductive Ending (φ : Type) where
  | panic (p : Panic)
  | fail (e : Error)
  /-- So many results are on the stack. -/
  | count (n : Nat)
  /-- All of the stack is results. -/
  | whole
  | arguments
  | reversed
  | values (vs : ListExpr φ)

/-- A host function. -/
inductive Function where
  | mk (name : String) (steps : List (Step Function)) (ending : Ending Function)

namespace Function

def name : Function → String
  | mk n _ _ => n

def steps : Function → List (Step Function)
  | mk _ s _ => s

def ending : Function → Ending Function
  | mk _ _ e => e

end Function
end LuaEmbed.Scenario
