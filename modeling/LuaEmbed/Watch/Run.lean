import LuaEmbed.Host.Drive
import LuaEmbed.Watch.Stack

/-!
Operations that run code, and the ends of host functions, call by call.
-/
namespace LuaEmbed

open Engine World

variable {σ μ α : Type}

/-- Something that may run code, as a sequence of calls that are watched. The operations of the code
that runs are watched in their turn. -/
abbrev WatchedRun (σ μ : Type) := ReaderT (Drive σ μ) (StateT (Watch σ μ) Option)

/-- Something that may run code and may fail, as a sequence of calls that are watched. -/
abbrev WatchedAct (σ μ : Type) := ExceptT Error (WatchedRun σ μ)

namespace WatchedRun

/-- Calls without a run, with their outcome. -/
def calls (a : Watched σ μ α) : WatchedRun σ μ (Except Error α) := fun _ x => some (a x)

/-- What the interpreter does of its own. -/
def plain (a : Run σ μ α) : WatchedRun σ μ α := fun d x =>
  (a d x.world).map fun (r, w) => (r, { x with world := w })

def change (f : World σ μ → World σ μ) : WatchedRun σ μ Unit := plain (Run.update f)

end WatchedRun

/-- A host function is pushed as such, and a native opener is put on the stack. -/
def Watched.pushOpener (c : Context) : ModuleOpener → Watched σ μ Unit
  | .native f => put c (.builtin f)
  | .host shape id => pushFunction c shape id

/-- The text of a failure is put on a stack whether or not there is room for it, unless there is no memory
for it. -/
def Watched.putFailure (c : Context) (message : String) : Watched σ μ Unit := do
  presume c 1
  let w ← world
  if (w.heap c.vm).starved then return
  glance c (.text message)

namespace WatchedAct

def calls (a : Watched σ μ α) : WatchedAct σ μ α := WatchedRun.calls a

def plain (a : Run σ μ α) : WatchedAct σ μ α := ExceptT.lift (WatchedRun.plain a)

def change (f : World σ μ → World σ μ) : WatchedAct σ μ Unit := plain (Run.update f)

section

variable (c : Context)

/-- The results that were asked for may take more slots than the callable and its arguments. -/
def protectedCall (nargs : Nat) (results : ResultCount) (base : Nat) : WatchedAct σ μ Int := do
  let extra := results.room nargs
  calls (Watched.require c extra)
  change (·.log .trace "protected call" [("nargs", toString nargs), ("results", results.describe)])
  if 0 < extra then calls (Watched.grow c extra.toNat (return))
  match ← plain (c.protect nargs results.want) with
  | none => return (← calls (Watched.plain c.top)) - base
  | some status =>
    let text ← calls (Watched.popErrorText c)
    calls (Watched.plain (c.cut base))
    change (·.log .debug "protected call failed"
      [("message", text), ("status", toString status.code)])
    throw (.call text)

def callInPlace (args : List Value) (results : ResultCount) : WatchedAct σ μ Int := do
  let depth ← calls (Watched.plain c.top)
  if depth < 1 then throw (.index (-1) depth)
  let base := (depth - 1).toNat
  if Word32.greatest < args.length then throw (.stackOverflow Word32.greatest)
  match ← ExceptT.lift (WatchedRun.calls (Watched.pushAll c args)) with
  | .error e =>
    calls (Watched.plain (c.cut base))
    throw e
  | .ok () => protectedCall c args.length results base

def callWith (args : List Value) (results : ResultCount) : WatchedAct σ μ (List Value) := do
  let produced ← callInPlace c args results
  let base := (← calls (Watched.plain c.top)) - produced
  let vs ← ExceptT.lift (WatchedRun.calls (Watched.readBatch c produced (some (base + 1))))
  calls (Watched.plain (c.cut base.toNat))
  ExceptT.mk (pure vs)

def len (index : Int) : WatchedAct σ μ Value := do
  let pos ← calls (Watched.plain (c.resolve index))
  calls (Watched.require c 2)
  let base ← calls (Watched.plain c.top)
  calls do
    let w ← Watched.world
    Watched.put c (.builtin .lengthOfFirst)
    Watched.put c (w.at_ c pos)
  discard (protectedCall c 1 (.fixed 1) base.toNat)
  let v ← ExceptT.lift (WatchedRun.calls (Watched.read c (-1)))
  calls (Watched.plain (c.cut base.toNat))
  ExceptT.mk (pure v)

/-- The name of the module is put on the stack to look it up, and again to store its value. -/
def registerModule (name : Bytes) (opener : ModuleOpener) (publish : Bool) : WatchedAct σ μ Value := do
  let base ← calls (Watched.plain c.top)
  calls (Watched.require c 5)
  let loaded := (base + 1).toNat
  calls (Watched.grow c 1 c.pushLoaded)
  calls do
    let w ← Watched.world
    Watched.put c (.str name)
    Watched.supplant c 1 ((w.heap c.vm).rawGet (w.at_ c loaded) (.str name))
  let isLoaded := ((← get).world.at_ c (base + 2)).truthy
  if !isLoaded then
    calls (Watched.plain (c.cut loaded))
    calls (Watched.pushOpener c opener)
    calls (Watched.put c (.str name))
    match ← ExceptT.lift (protectedCall c 1 (.fixed 1) loaded) with
    | .error e =>
      calls (Watched.plain (c.cut base.toNat))
      throw e
    | .ok _ => pure ()
    calls do
      let w ← Watched.world
      let v := (w.slots c).back?.getD .nil
      Watched.put c (.str name)
      Watched.put c v
      Watched.change (·.modifyHeap c.vm fun h => h.rawSet (w.at_ c loaded) (.str name) v)
      Watched.drop c 2
  calls (Watched.plain (c.removeAt loaded))
  if publish then
    calls (Watched.duplicate c (-1))
    calls (Watched.setGlobal c name)
  change (·.log .debug "module registered"
    [("fresh", if isLoaded then "false" else "true"), ("module", name.toStringLossy),
     ("publish_global", if publish then "true" else "false")])
  calls (Watched.read c (-1))

def openLib (lib : StdLib) : WatchedAct σ μ Unit := do
  let v ← registerModule c (Bytes.ofString lib.moduleName) (.native lib.opener) true
  change (·.release v)
  calls (Watched.plain (c.pop 1))

def openLibs : List StdLib → WatchedAct σ μ Unit
  | [] => return
  | lib :: libs => do
    openLib c lib
    openLibs libs

end

/-- What a thread failed with is left on its stack by the interpreter. -/
def goOn (source co : Context) (args : List Value) : WatchedAct σ μ Resumed := do
  let base ← calls (Watched.plain co.top)
  if Word32.greatest < args.length then throw (.stackOverflow Word32.greatest)
  match ← ExceptT.lift (WatchedRun.calls (Watched.pushAll co args)) with
  | .error e =>
    calls (Watched.plain (co.cut base.toNat))
    throw e
  | .ok () => pure ()
  match ← plain (World.resumeWith source co args.length) with
  | .returned n => return .returned (← calls (Watched.popValues co n))
  | .yielded n => return .yielded (← calls (Watched.popValues co n))
  | .failed v =>
    let text ← calls do
      Watched.change (·.push co v)
      Watched.popErrorText co
    throw (.call text)

def resume (h : ThreadHandle) (source : Context) (args : List Value) : WatchedAct σ μ Resumed := do
  if !(← calls (Watched.owns source h)) then
    throw (.unsupportedValue "cannot resume a coroutine of another VM instance")
  match ← calls (Watched.plain (h.status source)) with
  | .suspended => pure ()
  | .dead => throw (.call "cannot resume dead coroutine")
  | _ => throw (.call "cannot resume non-suspended coroutine")
  let v ← calls (Watched.plain (h.view false))
  let r ← ExceptT.lift (goOn source v.stack args)
  plain (World.dropView v false)
  ExceptT.mk (pure r)

/-- What an operation that runs code does, call by call. -/
def onRun (c : Context) : CallOp α → WatchedAct σ μ α
  | .call args n => callWith c args n
  | .callInPlace args n => callInPlace c args n
  | .len i => len c i
  | .registerModule n o p => registerModule c n o p
  | .openLib l => openLib c l
  | .openStdLibs => openLibs c StdLib.all
  | .resume h args => resume h c args

end WatchedAct

namespace WatchedRun

/-! ### The ends of host functions -/

def raiseHost (c : Context) (message : String) : WatchedRun σ μ Next := do
  let _ ← calls (Watched.putFailure c message)
  return .go (failing ((← get).world.heap c.vm) message)

/-- What the panic carries is dropped first. -/
def raisePanic (c : Context) (p : Panic) : WatchedRun σ μ Next :=
  match p.dropping with
  | none => raiseHost c (panicText p)
  | some _ => plain Run.unwind

def runRaw (p : Program σ μ (Outcome Nat)) (c : Context) : WatchedRun σ μ Next := do
  match ← plain p.perform with
  | .done count =>
    let depth := (← get).world.depth c
    if count ≤ depth then plain (World.endHost c count)
    else
      raiseHost c (Error.runtime
        s!"host function reported {count} results but the stack holds {depth}").message
  | .failed e => raiseHost c e.message
  | .panicked p => raisePanic c p

def runList (p : List Value → Program σ μ (Outcome (List Value))) (c : Context) :
    WatchedRun σ μ Next := do
  match ← calls (Watched.readBatch c ((← get).world.depth c) (some 1)) with
  | .error e => raiseHost c e.message
  | .ok args =>
    match ← plain (p args).perform with
    | .done results =>
      let pushed ← calls (Watched.pushAll c results)
      change (·.releaseAll results)
      match pushed with
      | .error e => raiseHost c e.message
      | .ok () => plain (World.endHost c results.length)
    | .failed e => raiseHost c e.message
    | .panicked p => raisePanic c p

def runHost (code : HostCode σ μ) (c : Context) (id : Option Nat) : WatchedRun σ μ Next := do
  let functions := (← get).world.functions
  match id.bind fun id => (functions.get? id).map fun f => (id, f.object) with
  | none => raiseHost c alreadyCollected.message
  | some (id, shape, s) =>
    change (·.retain (.function shape id))
    let next ←
      match shape with
      | .raw => runRaw (code.raw s c) c
      | .list => runList (code.list s c) c
    change (·.release (.function shape id))
    return next

end WatchedRun
end LuaEmbed
