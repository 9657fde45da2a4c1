import LuaEmbed.Host.Drive
import LuaEmbed.Scenario.Report

/-!
The values that the expressions of a scenario stand for. Whoever evaluates one owns a reference to
what the value refers to, and gives it back.
-/
namespace LuaEmbed.Scenario

/-- What a scenario does with the bridge and its own memory. -/
abbrev Play := Program Function Memory

/-- What may fail on the way. -/
structure Attempt (α : Type) where
  run : Play (Except Failure α)

variable {α β : Type}

namespace Attempt

def bind (a : Attempt α) (f : α → Attempt β) : Attempt β :=
  ⟨do
    match ← a.run with
    | .ok x => (f x).run
    | .error e => return .error e⟩

instance : Monad Attempt where
  pure x := ⟨pure (.ok x)⟩
  bind := bind

instance : MonadLift Play Attempt := ⟨fun a => ⟨do return .ok (← a)⟩⟩

/-- Gives up. -/
def fail (e : Failure) : Attempt α := ⟨return .error e⟩

def refuse (r : Refusal) : Attempt α := fail (.refused r)

/-- Does something last, also after a failure. -/
def thenAlways (a : Attempt α) (b : Play Unit) : Attempt α :=
  ⟨do
    let r ← a.run
    b
    return r⟩

end Attempt

def ask (o : Op Function Memory α) : Play α := Program.ask o

/-- Looks into the memory. -/
def remembered (f : Memory → α) : Play α := do return f (← ask .memory)

def alter (f : Memory → Memory) : Play Unit := ask (.modifyMemory f)

def note (e : Event) : Play Unit := alter (·.note e)

def retainAll (vs : List Value) : Play Unit :=
  (vs.filter Value.isCounted).forM fun v => ask (.retain v)

def releaseAll (vs : List Value) : Play Unit :=
  (vs.filter Value.isCounted).forM fun v => ask (.release v)

/-- Works with values that are given back afterwards. -/
def withValues (vs : List Value) (a : Attempt α) : Attempt α := a.thenAlways (releaseAll vs)

/-- Reads a register; one that is not set holds nil. -/
def register (name : String) : Play Value := do
  return ((← remembered (·.registers.lookup name))).getD .nil

/-- Puts a value into a register. -/
def setRegister (name : String) (v : Value) : Play Unit := do
  let old ← register name
  retainAll [v]
  alter fun m => { m with registers := Memory.assign name v m.registers }
  releaseAll [old]

/-- A byte string so many times over. -/
def repeated (s : Bytes) : Nat → Bytes → Bytes
  | 0, acc => acc
  | n + 1, acc => repeated s n (acc ++ s)

mutual

def TextExpr.eval (registers : List (String × Value)) : TextExpr → Bytes
  | .bytes s => s
  | .repeated t n => Scenario.repeated (t.eval registers) n .empty
  | .joined ts => Bytes.concat (TextExpr.evalAll registers ts)
  | .register name => ((registers.lookup name).bind Value.asText?).getD .empty

def TextExpr.evalAll (registers : List (String × Value)) : List TextExpr → List Bytes
  | [] => []
  | t :: ts => t.eval registers :: TextExpr.evalAll registers ts

end

/-- The running program or host function: the stack it was given, its arguments, and the latest
results of its steps. -/
structure Frame where
  home : Option Context := none
  args : List Value := []
  latest : List Value := []

namespace Frame

variable (f : Frame)

def text (t : TextExpr) : Play Bytes := do return t.eval (← remembered (·.registers))

def eval : ValueExpr Function → Play Value
  | .value v => return v
  | .text t => return .text (← text t)
  | .register name => do
    let v ← register name
    retainAll [v]
    return v
  | .argument k => do
    let v := f.args.getD k .nil
    retainAll [v]
    return v
  | .function shape g => ask (.newFunction shape g)
  | .foreign payload => ask (.newForeign payload)

def evalAll : ListExpr Function → Play (List Value)
  | .items vs => vs.mapM f.eval
  | .copies n v => do
    let x ← f.eval v
    let xs := List.replicate n x
    retainAll xs
    releaseAll [x]
    return xs
  | .latest => do
    retainAll f.latest
    return f.latest

/-- Gives back what a function leaves behind. -/
def drop : Play Unit := releaseAll (f.latest ++ f.args)

end Frame

/-- A value as reports show it. -/
def display : Value → Play Shown
  | .nil => return .nil
  | .bool b => return .bool b
  | .int i => return .int i
  | .float x => return .float x
  | .text s => return .text s
  | .function shape _ => return .function shape
  | .thread _ => return .thread
  | .handle h => return .handle h
  | .foreign id => do return .foreign (((← ask (.foreign id)).map (·.1)).getD "")

def displayAll (vs : List Value) : Play (List Shown) := vs.mapM display

end LuaEmbed.Scenario
