import LuaEmbed.Host.Marshal

/-!
Operations during which code runs. They are written over a function that runs a thread to its next
exit, so that they can be used by the machine while it runs; a run that does not end has no
result.
-/
namespace LuaEmbed

open Engine

/-- Runs a thread from a moment on until it exits. -/
abbrev Drive (σ μ : Type) := Context → Next → World σ μ → Option (Exit × World σ μ)

/-- Something that may run code. -/
abbrev Run (σ μ : Type) := ReaderT (Drive σ μ) (StateT (World σ μ) Option)

/-- Something that may run code and may fail. -/
abbrev Act (σ μ : Type) := ExceptT Error (Run σ μ)

namespace Run

variable {σ μ α : Type}

/-- An operation without a run, with its outcome. -/
def api (a : Api σ μ α) : Run σ μ (Except Error α) := fun _ w => some (a w)

def update (f : World σ μ → World σ μ) : Run σ μ Unit := fun _ w => some ((), f w)

/-- Changes the world, with a result. -/
def onWorld (f : World σ μ → α × World σ μ) : Run σ μ α := fun _ w => some (f w)

/-- A panic that nothing in the bridge catches: it leaves every run that is going on, and there is no
result. -/
def unwind : Run σ μ α := fun _ _ => none

/-- Runs a thread until it exits. -/
def drive (c : Context) (n : Next) : Run σ μ Exit := fun d w => d c n w

/-- A step within an interpreter. -/
def onVm [Inhabited α] (i : Nat) (f : Vm → Vm × α) : Run σ μ α := onWorld fun w => w.onVm i f

end Run

instance : Inhabited Engine.Next := ⟨.go (.results [])⟩

namespace Act

variable {σ μ α : Type}

def api (a : Api σ μ α) : Act σ μ α := Run.api a

def update (f : World σ μ → World σ μ) : Act σ μ Unit := ExceptT.lift (Run.update f)

end Act

/-- How many results a call should produce. -/
inductive ResultCount where
  | all
  /-- So many: the first ones, or filled up with nil. -/
  | fixed (n : UInt16)
  deriving DecidableEq, Inhabited

namespace ResultCount

/-- What the interpreter makes of it. It keeps a number in a signed word of 16 bits, where -1 and
-2 stand for all results, and a smaller one for the number it encodes, -3 for none. -/
def want : ResultCount → Option Nat
  | all => none
  | fixed n =>
    if n < 0x8000 then some n.toNat
    else if n ≤ 0xFFFD then some (0xFFFD - n).toNat
    else none

/-- How many slots the results take beyond those of the callable and its arguments. -/
def room (rc : ResultCount) (nargs : Nat) : Int :=
  match rc with
  | all => 0
  | fixed n => n.toNat - nargs - 1

def describe : ResultCount → String
  | all => "Variable"
  | fixed n => s!"Fixed({n})"

end ResultCount

namespace Context

variable {σ μ : Type} (c : Context)

/-- Takes the function below the topmost `nargs` values off the stack, and these values. -/
def takeCall (nargs : Nat) : Run σ μ (Val × List Val) := do
  let s := (← get).slots c
  Run.update (·.modifySlots c (·.shrink (s.size - nargs - 1)))
  return (s.getD (s.size - nargs - 1) .nil, s.toList.drop (s.size - nargs))

/-- Applies a value to arguments, to the end of the run in which that results. -/
def invoke (f : Val) (args : List Val) : Run σ μ Exit := do
  let next ← Run.onVm c.vm fun vm =>
    (vm.modifyThread c.thread (·.setAwait .guarded)).enter c.thread f args
      { nests := true, canYield := false }
  Run.drive c next

/-- Calls the function below the topmost `nargs` values, in protected mode. It and the arguments
give way to its results, or to an error value; in that case the status is given. -/
def protect (nargs : Nat) (want : Option Nat) : Run σ μ (Option ErrorStatus) := do
  let (f, args) ← c.takeCall nargs
  match ← c.invoke f args with
  | .returned vs | .yielded vs =>
    Run.update (·.modifySlots c (· ++ (Activation.adjust want vs).toArray))
    return none
  | .raised status v =>
    Run.update (·.push c v)
    return some status

end Context

namespace World

variable {σ μ : Type}

/-- Calls a finalizer on a thread; what becomes of the call does not matter. -/
def callFinalizer (c : Context) (f v : Val) : Run σ μ Unit := do
  let await ← Run.onVm c.vm fun vm =>
    let await := (vm.thread c.thread).top.await
    (vm.modifyThread c.thread (·.setAwait .guarded), await)
  let next ← Run.onVm c.vm fun vm =>
    vm.enter c.thread f [v]
      { nests := true, canYield := false, name := some ⟨"metamethod", "__gc"⟩ }
  discard (Run.drive c next)
  Run.update (·.modifyThread c (·.setAwait await))

/-- Finalizes an object on a thread, if it has a finalizer. -/
def finalize (c : Context) (v : Val) : Run σ μ Unit := do
  match (← get).heap c.vm |>.metafield v "__gc" with
  | .nil => return
  | f => callFinalizer c f v

def finalizeAll (c : Context) : List Val → Run σ μ Unit
  | [] => return
  | v :: vs => do
    finalize c v
    finalizeAll c vs

/-- Frees what nobody can reach and runs the finalizers of what is lost. -/
def collect (c : Context) : Run σ μ Unit := do
  let keep := ((← get).instance? c.vm).map fun x => x.references.items.toList.filterMap id
  let lost ← Run.onVm c.vm fun vm => Collector.collect vm (c.thread :: keep.getD [])
  Run.update (·.modifyHeap c.vm ({ · with collecting := true }))
  finalizeAll c lost
  Run.update (·.modifyHeap c.vm ({ · with collecting := false }))

/-- Whether the collector takes its turn on a thread: when it is due, unless it is at work already or has been
stopped. -/
def takesTurn (w : World σ μ) (c : Context) : Bool :=
  let h := w.heap c.vm
  !h.collecting && !h.halted && w.due c.thread (w.vm c.vm)

/-- The collector's turn on a thread. -/
def turn (c : Context) : Run σ μ Unit := do
  if (← get).takesTurn c then collect c

/-- Closes an interpreter: its main stack is emptied, every object with a finalizer is finalized,
the latest first, and nothing of it is left. -/
def shutDown (vm : Nat) : Run σ μ Unit := do
  let main : Context := ⟨vm, 0⟩
  Run.update (·.happened (.closed vm))
  let lost ← Run.onVm vm fun m =>
    let h := m.heap
    (({ m with heap := { h with collecting := true, closing := true, finalizable := [] } }).setThread 0
      { size := (m.thread 0).size }, h.finalizable)
  finalizeAll main lost
  Run.update (·.modifyInstance vm fun x => { x with vm := {} })
  Run.update (·.log .debug "state closed" [])

end World
end LuaEmbed
