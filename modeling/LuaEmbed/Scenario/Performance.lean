import LuaEmbed.Scenario.Task

/-!
The performance of a scenario: its steps one after the other, with what its host functions do when
the interpreter calls them.
-/
namespace LuaEmbed.Scenario

namespace Frame

variable (f : Frame)

/-- Puts results where a step wants them. -/
def store (vs : List Value) : Option Target → Play Unit
  | none => return
  | some (.first name) => (vs.take 1).forM (setRegister name)
  | some (.each names) => (names.zip vs).forM fun p => setRegister p.1 p.2

/-- Takes over what a task gave. -/
def absorb (target : Option Target) : Kept → Play Frame
  | .nothing => return f
  | .latest vs => do
    store vs target
    releaseAll f.latest
    return { f with latest := vs }
  | .aside vs => do
    store vs target
    releaseAll vs
    if target.isNone then return f
    releaseAll f.latest
    return { f with latest := [] }

/-- The depth of a stack. -/
def depthOf (c : Context) : Play (Option Int) := do
  return (← (stackOp c .top).run).toOption

/-- The largest stack that reports show. -/
def shownDepth : Int := 24

def viewStack (c : Context) : Play (Option StackView) := do
  match ← depthOf c with
  | none => return none
  | some depth =>
    if shownDepth < depth then return some .large
    return (← (readStack c).run).toOption.map .values

/-- The frame afterwards, and the outcome, of a task that has been carried out. -/
def conclude (s : Step Function) : Except Failure Yield → Play (Frame × Except Failure Answer)
  | .ok y => do
    let f ← f.absorb s.target y.kept
    return (f, .ok (if s.quiet then .quiet else y.answer))
  | .error e => return (f, .error e)

/-- Whether the stack a step works on is shown with its outcome. -/
def showsStack : Except Failure Answer → Bool
  | .ok _ | .error (.failed _) => true
  | .error _ => false

/-- The stack that a task without one of its own works on: that of a new state, and otherwise the last one
that host functions called meanwhile worked on. -/
def depthAfter (t : FreeTask Function) : Except Failure Answer → Play (Option Int)
  | .ok _ => do
    match t with
    | .newState id _ => depthOf ⟨(← remembered (·.states.lookup id)).getD 0, 0⟩
    | _ => remembered (·.depth)
  | .error _ => remembered (·.depth)

/-- Carries a step out. The stack is looked at if `dump` says so. -/
def perform (dump : Bool) (s : Step Function) : Play (Frame × Result × Option StackView) := do
  alter ({ · with depth := none })
  match s.task with
  | .free t =>
    let (f, outcome) ← f.conclude s (← (f.offStack t).run)
    let top ← depthAfter t outcome
    alter ({ · with depth := top })
    return (f, ⟨outcome, top⟩, none)
  | .stack place t =>
    match ← (f.reach place).run with
    | .error e => return (f, ⟨.error e, none⟩, none)
    | .ok (c, hold) =>
      let (f, outcome) ← f.conclude s (← (f.onStack c t).run)
      let result : Result ←
        if showsStack outcome then do pure ⟨outcome, ← depthOf c⟩ else pure ⟨outcome, none⟩
      alter ({ · with depth := result.top })
      let view ← if dump && showsStack outcome then viewStack c else pure none
      hold.release
      return (f, result, view)

/-- Carries the steps of a function out, up to the first failure of one that must not fail. -/
def performAll (f : Frame) : List (Step Function) → Play (Frame × Option Failure)
  | [] => return (f, none)
  | s :: ss => do
    let (f, result, _) ← f.perform false s
    note (.performed s.label result)
    match result.outcome with
    | .error e => if s.attempt then performAll f ss else return (f, some e)
    | .ok _ => performAll f ss

/-- Leaves a function. -/
def leave {α : Type} (g : Function) (how : Departure) (result : Outcome α) : Play (Outcome α) := do
  note (.left g.name how)
  f.drop
  return result

end Frame

namespace Function

/-- What a function does: its steps, and then what is left to do unless it has ended early. -/
def body {α : Type} (g : Function) (f : Frame) (finish : Frame → Play (Outcome α)) :
    Play (Outcome α) := do
  let (f, failure) ← f.performAll g.steps
  match failure with
  | some e => f.leave g .failed (.failed e.error)
  | none =>
    match g.ending with
    | .panic p => f.leave g .panicked (.panicked p)
    | .fail e => f.leave g .error (.failed e)
    | _ => finish f

/-- A function on the stack it is given. -/
def runRaw (g : Function) (c : Context) : Play (Outcome Nat) := do
  let depth ← Frame.depthOf c
  note (.entered g.name (depth.getD 0) none)
  g.body { home := some c } fun f => do
    let count ← match g.ending with
      | .count n => pure n
      | .whole => do pure ((← Frame.depthOf c).getD 0).toNat
      | _ => pure 0
    f.leave g (.count count) (.done count)

/-- A function from arguments to results. -/
def runList (g : Function) (c : Context) (args : List Value) : Play (Outcome (List Value)) := do
  let depth ← Frame.depthOf c
  note (.entered g.name (depth.getD 0) (some (← displayAll args)))
  g.body { home := some c, args } fun f => do
    let results ← match g.ending with
      | .arguments => do
        retainAll f.args
        pure f.args
      | .reversed => do
        retainAll f.args
        pure f.args.reverse
      | .values vs => f.evalAll vs
      | _ => pure []
    f.leave g (.values (← displayAll results)) (.done results)

/-- What the host functions of a scenario do. -/
def code : HostCode Function Memory := ⟨runRaw, runList⟩

end Function

/-- Performs steps and reports on each. -/
def reports (dump : Bool) (f : Frame) : List (Step Function) → Play (List Report)
  | [] => return []
  | s :: ss => do
    alter ({ · with journal := [] })
    let (f, result, stack) ← f.perform dump s
    let events ← remembered (·.journal.reverse)
    return { result, stack, events } :: (← reports dump f ss)

/-- An empty world. A collector that has not been stopped takes every turn. -/
def world (logging : Bool) : World Function Memory :=
  { memory := { logging }, subscriber := Memory.hear, due := fun _ _ => true }

/-- How many steps of the machine a scenario may take between two operations. -/
def patience : Nat := 2 ^ 62

/-- Performs a scenario from an empty world. -/
def perform (dump logging : Bool) (steps : List (Step Function)) : Option (List Report) :=
  ((reports dump {} steps).run Function.code patience (world logging)).map (·.1)

/-- The values of expressions in an empty world, and how reports show them. -/
def evaluate (vs : List (ValueExpr Function)) : List (Value × Shown) :=
  let values : Play (List (Value × Shown)) := do
    let vs ← vs.mapM ({} : Frame).eval
    return vs.zip (← displayAll vs)
  ((values.run Function.code patience (world false)).map (·.1)).getD []

end LuaEmbed.Scenario
