import LuaEmbed.Scenario.Place

/-!
What the tasks of a scenario do: each is an operation of the bridge, or a few, on evaluated
values.
-/
namespace LuaEmbed.Scenario

/-- What becomes of the values that a task gives. -/
inductive Kept where
  | nothing
  /-- They are the latest results. -/
  | latest (vs : List Value)
  /-- They are kept by registers only. -/
  | aside (vs : List Value)

structure Yield where
  answer : Answer
  kept : Kept := .nothing

variable {α : Type}

/-- An operation of the bridge as part of a task. -/
def require (a : Play (Except Error α)) : Attempt α := do
  match ← a with
  | .ok x => return x
  | .error e => Attempt.fail (.failed e)

/-- The answer to a task that gives nothing. -/
def silent (a : Attempt Unit) : Attempt Yield := do
  a
  return ⟨.none, .nothing⟩

def giving (v : Value) : Attempt Yield := do return ⟨.value (← display v), .latest [v]⟩

def givingAll (vs : List Value) : Attempt Yield := do
  return ⟨.values (← displayAll vs), .latest vs⟩

def flag (a : Attempt Bool) : Attempt Yield := do return ⟨.flag (← a), .nothing⟩

def number (a : Attempt Int) : Attempt Yield := do return ⟨.number (← a), .nothing⟩

namespace Frame

variable (f : Frame) (c : Context)

/-- Evaluates what opens a module, with the value to give back afterwards. -/
def opener : OpenerExpr Function → Attempt (ModuleOpener × List Value)
  | .native b => return (.native b, [])
  | .host v => do
    match ← f.eval v with
    | .function shape id => return (.host shape id, [.function shape id])
    | v => do
      releaseAll [v]
      Attempt.refuse .notOpener

def stackOp (o : StackOp α) : Attempt α := require (ask (.stack c o))

def callOp (o : CallOp α) : Attempt α := require (ask (.run c o))

/-- The whole stack, and its values given back. -/
def readStack : Attempt (List Shown) := do
  let depth ← stackOp c .top
  let vs ← stackOp c (.readBatch depth (some 1))
  let shown ← displayAll vs
  releaseAll vs
  return shown

/-- Carries a task on a stack out. -/
def onStack : StackTask Function → Attempt Yield
  | .top => number (stackOp c .top)
  | .resolve i => number (stackOp c (.resolve i))
  | .setTop n => silent (stackOp c (.setTop n))
  | .checkStack n => silent (stackOp c (.checkStack n))
  | .pop n => silent (stackOp c (.pop n))
  | .remove i => silent (stackOp c (.remove i))
  | .duplicate i => silent (stackOp c (.duplicate i))
  | .replace i => silent (stackOp c (.replace i))
  | .rotate i n => silent (stackOp c (.rotate i n))
  | .copy i j => silent (stackOp c (.copy i j))
  | .typeOf i => do return ⟨.tag (← stackOp c (.typeOf i)), .nothing⟩
  | .rawLen i => do return ⟨.number (← stackOp c (.rawLen i)), .nothing⟩
  | .len i => do giving (← callOp c (.len i))
  | .push v => do
    let v ← f.eval v
    silent (withValues [v] (stackOp c (.push v)))
  | .pushAll vs => do
    let vs ← f.evalAll vs
    silent (withValues vs (stackOp c (.pushAll vs)))
  | .read i => do giving (← stackOp c (.read i))
  | .readBatch n start => do givingAll (← stackOp c (.readBatch n start))
  | .readStack => do return ⟨.values (← readStack c), .nothing⟩
  | .popValues n => do givingAll (← stackOp c (.popValues n))
  | .validate v => do
    let v ← f.eval v
    match v with
    | .handle h => silent (stackOp c (.validate h))
    | v => do
      releaseAll [v]
      Attempt.refuse .notHandle
  | .readForeign i => do
    match ← stackOp c (.readForeign i) with
    | some v => return ⟨.value (← display v), .aside [v]⟩
    | none => return ⟨.none, .aside []⟩
  | .getGlobal name => do giving (← stackOp c (.getGlobal name))
  | .setGlobal name => silent (stackOp c (.setGlobal name))
  | .sameStack v => do
    let v ← f.eval v
    releaseAll [v]
    match v with
    | .handle h => return ⟨.flag (h.stack = c), .nothing⟩
    | .thread h => return ⟨.flag (h.thread = c), .nothing⟩
    | _ => return ⟨.flag false, .nothing⟩
  | .transfer target n => silent (withPlace target fun d => stackOp c (.transfer d n))
  | .sameVm other => flag (withPlace other fun d => stackOp c (.sameVm d))
  | .load chunk => do silent (stackOp c (.load (← text chunk)))
  | .loadNamed chunk name mode => do silent (stackOp c (.loadNamed (← text chunk) name mode))
  | .tryLoad chunk => do return ⟨.loaded (← stackOp c (.tryLoad (← text chunk))), .nothing⟩
  | .call args results => do
    let args ← f.evalAll args
    givingAll (← withValues args (callOp c (.call args results)))
  | .callInPlace args results => do
    let args ← f.evalAll args
    number (withValues args (callOp c (.callInPlace args results)))
  | .registerModule name o publish => do
    let (o, held) ← f.opener o
    giving (← withValues held (callOp c (.registerModule name o publish)))
  | .openLib lib => silent (callOp c (.openLib lib))
  | .openStdLibs => silent (callOp c .openStdLibs)
  | .newThread => do return ⟨.flag true, .latest [.thread (← stackOp c .newThread)]⟩
  | .currentThread => do return ⟨.flag true, .latest [.thread (← stackOp c .currentThread)]⟩
  | .belongs name => do flag (stackOp c (.belongs (← threadIn name)))
  | .status name => do return ⟨.status (← stackOp c (.status (← threadIn name))), .nothing⟩
  | .resume name args => do
    let h ← threadIn name
    let args ← f.evalAll args
    retainAll [.thread h]
    match ← withValues (.thread h :: args) (callOp c (.resume h args)) with
    | .yielded vs => return ⟨.yielded (← displayAll vs), .latest vs⟩
    | .returned vs => return ⟨.returned (← displayAll vs), .latest vs⟩
  | .fault => do
    discard (stackOp c .fault)
    return ⟨.number 0, .nothing⟩
  | .starve on => do
    ask (.starve c.vm on)
    return ⟨.flag true, .nothing⟩

/-- The answer that names a hook. -/
def hookAnswer (h : Option FatalHook) : Yield :=
  ⟨(h.map fun h => Answer.word h.name).getD .none, .nothing⟩

/-- Lets go of a state. -/
def dropState (id : Int) : Attempt Unit := do
  let vm ← freeState id
  alter fun m => { m with states := Memory.unassign id m.states }
  ask (.dropOwner vm)

/-- Carries a task out that concerns no stack. -/
def offStack : FreeTask Function → Attempt Yield
  | .newState id config => do
    let vm ← require (ask (.newInstance config))
    ask (.halt vm true)
    let old ← remembered (·.states.lookup id)
    alter fun m => { m with states := Memory.assign id vm m.states }
    if let some old := old then ask (.dropOwner old)
    return ⟨.flag true, .nothing⟩
  | .dropState id => do
    dropState id
    return ⟨.flag true, .nothing⟩
  | .openView thread name => do
    let v ← require (ask (.view (← threadIn thread)))
    let old ← remembered (·.views.lookup name)
    alter fun m => { m with views := Memory.assign name v m.views }
    if let some old := old then ask (.dropView old)
    return ⟨.flag true, .nothing⟩
  | .closeView name => do
    if ← remembered (·.busyViews.contains name) then Attempt.refuse .busy
    match ← remembered (·.views.lookup name) with
    | none => return ⟨.flag false, .nothing⟩
    | some v => do
      alter fun m => { m with views := Memory.unassign name m.views }
      ask (.dropView v)
      return ⟨.flag true, .nothing⟩
  | .keep v => do return ⟨.flag true, .latest [← f.eval v]⟩
  | .forget name => do
    match ← remembered (·.registers.lookup name) with
    | none => return ⟨.flag false, .nothing⟩
    | some v => do
      alter fun m => { m with registers := Memory.unassign name m.registers }
      releaseAll [v]
      return ⟨.flag true, .nothing⟩
  | .keepForeign payload name => do
    let v ← ask (.newForeign payload)
    let old ← remembered (·.foreigns.lookup name)
    if let .foreign id := v then
      retainAll [v]
      alter fun m => { m with foreigns := Memory.assign name id m.foreigns }
    if let some old := old then releaseAll [.foreign old]
    return ⟨.flag true, .aside [v]⟩
  | .references name => do
    match ← remembered (·.foreigns.lookup name) with
    | none => return ⟨.none, .nothing⟩
    | some id => return ⟨.number (((← ask (.foreign id)).map (·.2)).getD 0 : Nat), .nothing⟩
  | .same a b => do
    let a ← f.eval a
    let b ← f.eval b
    releaseAll [a, b]
    return ⟨.flag (a.same b), .nothing⟩
  | .inspect v => do
    let v ← f.eval v
    let shown ← display v
    releaseAll [v]
    return ⟨.facts v.kind v.truthy v.describe shown, .nothing⟩
  | .inspectOpener o => do
    let (o, held) ← f.opener o
    releaseAll held
    return ⟨.description o.describe, .nothing⟩
  | .installHook hook => do return hookAnswer (← ask (.installHook hook))
  | .resetHook => do return hookAnswer (← ask .resetHook)
  | .hasHook => do return ⟨.flag (← ask .hook).isSome, .nothing⟩

end Frame
end LuaEmbed.Scenario
