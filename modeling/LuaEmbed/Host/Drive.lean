import LuaEmbed.Host.Program

/-!
The run of a thread: steps of the machine, and between them what it needs from outside. Host
functions, resumed threads and finalizers run inside such a run, each to its own exit.
-/
namespace LuaEmbed

open Engine

variable {σ μ : Type}

namespace World

/-- Lets a native function go on after its demand has been met. -/
def answer (c : Context) (f : Heap → Heap × Action) : Run σ μ Next :=
  Run.onVm c.vm fun vm => vm.onHeap f

/-- Ends the host function on top, whose results are the topmost slots of its frame. -/
def endHost (c : Context) (count : Nat) : Run σ μ Next :=
  Run.onVm c.vm fun vm =>
    let s := (vm.thread c.thread).slots
    let vs := s.toList.drop (s.size - count)
    (vm.modifyThread c.thread (·.popFrame), .go (.results vs))

/-- What the failure of a host function is raised as: its text, or the engine's own error if there is no
memory for the text. -/
def failing (h : Heap) (message : String) : Signal :=
  if h.starved then .raise .memory (.str Chunk.memoryMessage) true
  else .raise .runtime (.text message) false

/-- Raises the text of a host function's failure. -/
def raiseHost (c : Context) (message : String) : Run σ μ Next := do
  Run.update fun w => (w.reserve c 1).2
  return .go (failing ((← get).heap c.vm) message)

/-- The failure of a function whose holder has been finalized. -/
def alreadyCollected : Error := .runtime "host function was already collected"

def panicText (p : Panic) : String := "host function panicked: " ++ p.message

/-- The end of a host function that panicked. What the panic carries is dropped, and nothing catches a
panic that this comes to; otherwise the text is raised. -/
def raisePanic (c : Context) (p : Panic) : Run σ μ Next :=
  match p.dropping with
  | none => raiseHost c (panicText p)
  | some _ => Run.unwind

/-- Runs a raw function; it must leave as many results as it says. -/
def runRaw (p : Program σ μ (Outcome Nat)) (c : Context) : Run σ μ Next := do
  match ← p.perform with
  | .done count =>
    let depth := (← get).depth c
    if count ≤ depth then endHost c count
    else
      raiseHost c (Error.runtime
        s!"host function reported {count} results but the stack holds {depth}").message
  | .failed e => raiseHost c e.message
  | .panicked p => raisePanic c p

/-- Runs a list function between reading its arguments and pushing its results. -/
def runList (p : List Value → Program σ μ (Outcome (List Value))) (c : Context) :
    Run σ μ Next := do
  match ← Run.api (c.readBatch ((← get).depth c) (some 1)) with
  | .error e => raiseHost c e.message
  | .ok args =>
    match ← (p args).perform with
    | .done results =>
      let pushed ← Run.api (c.pushAll results)
      Run.update (·.releaseAll results)
      match pushed with
      | .error e => raiseHost c e.message
      | .ok () => endHost c results.length
    | .failed e => raiseHost c e.message
    | .panicked p => raisePanic c p

/-- Runs the host function on top, which is kept alive meanwhile. -/
def runHost (code : HostCode σ μ) (c : Context) (id : Option Nat) : Run σ μ Next := do
  let functions := (← get).functions
  match id.bind fun id => (functions.get? id).map fun f => (id, f.object) with
  | none => raiseHost c alreadyCollected.message
  | some (id, shape, s) =>
    Run.update (·.retain (.function shape id))
    let next ←
      match shape with
      | .raw => runRaw (code.raw s c) c
      | .list => runList (code.list s c) c
    Run.update (·.release (.function shape id))
    return next

/-- Lets a script resume a thread. -/
def resumeFor (c : Context) (thread : Nat) (args : List Val) :
    Run σ μ (Except Val (List Val)) := do
  let co : Context := ⟨c.vm, thread⟩
  if !(← Run.onWorld fun w => w.reserve co args.length) then
    return .error (.text "too many arguments to resume")
  Run.update (·.modifySlots co (· ++ args.toArray))
  match ← resumeWith c co args.length with
  | .failed v => return .error v
  | .returned n | .yielded n =>
    let s := (← get).slots co
    Run.update (·.truncate co (s.size - n))
    if ← Run.onWorld fun w => w.reserve c (n + 1) then
      return .ok (s.toList.drop (s.size - n))
    else return .error (.text "too many results to resume")

/-- Lets a script close a thread; the error it leaves, if there is one. A thread in the middle of a
run is left alone. -/
def closeFor (c : Context) (thread : Nat) (onlyFailed : Bool) : Run σ μ (Option Val) := do
  let th := ((← get).vm c.vm).thread thread
  if th.isRunning || (onlyFailed && !th.status.isFailed) then return none
  let depth := ((← get).thread c).top.depth
  let next ← Run.onVm c.vm fun vm => vm.beginClose thread depth
  match ← Run.drive ⟨c.vm, thread⟩ next with
  | .raised _ v => return some v
  | _ => return none

/-- Meets a demand of the machine. -/
def meet (code : HostCode σ μ) (c : Context) : Demand → Run σ μ Next
  | .host _ id => runHost code c id
  | .resume thread args k => do
    let r ← resumeFor c thread args
    answer c (k r)
  | .close thread onlyFailed k => do
    let e ← closeFor c thread onlyFailed
    answer c (k e)
  | .collect k => do
    collect c
    answer c k
  | .turn => do
    turn c
    return .go .run
  | .pause => do
    turn c
    return .exit (.returned [])
  | .release p k => do
    Run.update (·.releasePayload p)
    answer c k

/-- Runs a thread until it exits, for a number of steps at most. -/
def drive (code : HostCode σ μ) : Nat → Drive σ μ
  | 0, _, _, _ => none
  | fuel + 1, c, next, w =>
    match next with
    | .exit e => some (e, w)
    | .go s =>
      let (next, w) := w.onVm c.vm fun vm => vm.step c.thread s
      drive code fuel c next w
    | .need d =>
      match meet code c d (drive code fuel) w with
      | some (next, w) => drive code fuel c next w
      | none => none

end World

/-- Runs a host program, for a number of steps at most between any two of its operations. -/
def Program.run {α : Type} (code : HostCode σ μ) (fuel : Nat) (p : Program σ μ α)
    (w : World σ μ) : Option (α × World σ μ) :=
  p.perform (World.drive code fuel) w

end LuaEmbed
