import LuaEmbed.Host.Call

/-!
Threads of an interpreter: creating them, looking at their stacks, their status, and resuming
them. An open view of a stack keeps the interpreter from being freed.
-/
namespace LuaEmbed

open Engine

/-- What a resumed coroutine handed back. -/
inductive Resumed where
  | yielded (vs : List Value)
  | returned (vs : List Value)

def Resumed.values : Resumed → List Value
  | yielded vs | returned vs => vs

namespace Context

variable {σ μ : Type} (c : Context)

/-- A handle to the thread that an operation pushes, whatever becomes of the slot it took. -/
def captureTop (v : World σ μ → Val × World σ μ) : Api σ μ ThreadHandle := do
  c.checkStack 2
  Api.modify fun w =>
    let (t, w) := v w
    w.push c t
  let top ← c.top
  fun w =>
    match c.capture top w with
    | (r, w) => (r, w.truncate c (top - 1).toNat)

/-- A new coroutine, whose stack is empty. -/
def newThread : Api σ μ ThreadHandle :=
  c.captureTop fun w =>
    w.onVm c.vm fun vm =>
      ({ vm with threads := vm.threads.push (.new #[]) }, .thread vm.threads.size)

/-- A handle to the thread that the stack belongs to. -/
def currentThread : Api σ μ ThreadHandle := c.captureTop fun w => (.thread c.thread, w)

end Context

namespace ThreadHandle

variable {σ μ : Type} (h : ThreadHandle)

def isClosed (w : World σ μ) : Bool := ((w.instance? h.thread.vm).map (·.closed)).getD true

/-- Opens a view of the thread's stack. -/
def view (held : Bool) : Api σ μ View := fun w =>
  if h.isClosed w then (.error (.unsupportedValue "thread outlived its VM"), w)
  else
    let v : View := ⟨h.thread, w.views.next⟩
    let w := w.modifyInstance h.thread.vm fun x => { x with views := x.views + 1 }
    (.ok v, { w with views := w.views.push ⟨h.thread, held⟩ }.happened (.opened v))

/-- The status of the thread as seen from another one. -/
def status (c : Context) : Api σ μ CoroutineStatus := fun w =>
  if h.isClosed w then (.ok .dead, w)
  else if h.thread = c then (.ok .running, w)
  else
    -- A thread of another interpreter is never the one asking.
    let asking := if h.thread.vm = c.vm then c.thread else (w.vm h.thread.vm).threads.size
    (.ok ((w.vm h.thread.vm).statusSeen h.thread.thread asking), w)

end ThreadHandle

namespace World

variable {σ μ : Type}

/-- Gives up a view of an interpreter; with the last one goes an interpreter whose owner is
gone. -/
def releaseView (vm : Nat) : Run σ μ Unit := do
  Run.update (·.modifyInstance vm fun x => { x with views := x.views - 1 })
  match (← get).instance? vm with
  | some x => if x.views = 0 ∧ x.closed then shutDown vm
  | none => return

/-- Closes a view, if it is open and in the hands of the one who asks. -/
def dropView (v : View) (held : Bool) : Run σ μ Unit := do
  match (← get).views.get? v.number with
  | none => return
  | some o =>
    if o = ⟨v.stack, held⟩ then
      Run.update fun w => { w with views := w.views.erase v.number }.happened (.dropped v)
      releaseView v.stack.vm

/-- How a resume ends for the interpreter. -/
inductive ResumeEnd where
  | returned (count : Nat)
  | yielded (count : Nat)
  | failed (v : Val)

/-- Resumes a thread that has `count` arguments on top of its stack. A refusal takes them away
again. -/
def resumeWith (source co : Context) (count : Nat) : Run σ μ ResumeEnd := do
  let depth := ((← get).thread source).top.depth
  match ((← get).vm co.vm).refusal? co.thread count depth with
  | some why =>
    Run.update (·.modifySlots co fun s => s.shrink (s.size - count))
    return .failed (.str why)
  | none =>
    let next ← Run.onVm co.vm fun vm => vm.beginResume co.thread count depth
    let e ← Run.drive co next
    Run.update (·.modifyVm co.vm (·.endResume co.thread e))
    match e with
    | .returned _ => return .returned ((← get).depth co)
    | .yielded vs => return .yielded vs.length
    | .raised _ v => return .failed v

/-- Lets a thread go on from another one with some arguments. What it hands back is read off its
stack and removed. -/
def goOn (source co : Context) (args : List Value) : Act σ μ Resumed := do
  let base ← Act.api co.top
  if Word32.greatest < args.length then throw (.stackOverflow Word32.greatest)
  match ← ExceptT.lift (Run.api (co.pushAll args)) with
  | .error e =>
    Act.api (co.cut base.toNat)
    throw e
  | .ok () => pure ()
  match ← ExceptT.lift (World.resumeWith source co args.length) with
  | .returned n => return .returned (← Act.api (co.popValues n))
  | .yielded n => return .yielded (← Act.api (co.popValues n))
  | .failed v =>
    let text ← ExceptT.lift (Run.onWorld fun w => (w.push co v).popErrorText co)
    throw (.call text)

end World

namespace ThreadHandle

variable {σ μ : Type} (h : ThreadHandle)

/-- Runs with a view of the thread's stack, which is closed afterwards. -/
def withView {α : Type} (a : Context → Act σ μ α) : Act σ μ α := do
  let v ← Act.api (h.view false)
  let r ← ExceptT.lift (a v.stack)
  ExceptT.lift (World.dropView v false)
  ExceptT.mk (pure r)

/-- Resumes the thread from another one with some arguments. -/
def resume (source : Context) (args : List Value) : Act σ μ Resumed := do
  if !(← Act.api (source.owns h)) then
    throw (.unsupportedValue "cannot resume a coroutine of another VM instance")
  match ← Act.api (h.status source) with
  | .suspended => pure ()
  | .dead => throw (.call "cannot resume dead coroutine")
  | _ => throw (.call "cannot resume non-suspended coroutine")
  h.withView fun co => World.goOn source co args

end ThreadHandle
end LuaEmbed
