import LuaEmbed.Host.Run

/-!
Loading chunks and calling what is on the stack. A call consumes the callable and its arguments
whatever the outcome.
-/
namespace LuaEmbed

open Engine

/-- Which kinds of chunk a load accepts. -/
inductive LoadMode where
  | text | binary | any
  deriving DecidableEq, Inhabited

def LoadMode.letters : LoadMode → Bytes
  | text => "t"
  | binary => "b"
  | any => "bt"

/-- The interpreter's outcome of a load. -/
inductive LoadOutcome where
  | ok | malformed | memory
  | other (code : Int)
  deriving DecidableEq, Inhabited

namespace LoadOutcome

def ofStatus : LoadStatus → LoadOutcome
  | .malformed => malformed
  | .memory => memory
  | .runtime => other 2

def describe : LoadOutcome → String
  | ok => "Ok"
  | malformed => "Syntax"
  | memory => "Memory"
  | other n => s!"Other({n})"

end LoadOutcome

/-- A chunk name, which must not contain a null byte. -/
def chunkName? (name : String) : Except Error Bytes :=
  if name.toList.contains '\x00' then
    .error (.unsupportedValue s!"chunk name {Quoted.quote name} contains a NUL byte")
  else .ok (Bytes.ofString name)

namespace Context

variable {σ μ : Type} (c : Context)

/-- Compiles a chunk; the function, or what the interpreter left instead, is on the stack. -/
def tryLoadWith (chunk name : Bytes) (mode : LoadMode) : Api σ μ LoadOutcome := do
  c.checkStack 1
  fun w =>
    let depth := (w.thread c).top.depth
    let (r, w) := w.onVm c.vm fun vm =>
      match Chunk.load chunk name mode.letters depth vm.heap with
      | .ok (f, h) => ({ vm with heap := h }, (LoadOutcome.ok, f))
      | .error e => (vm, (.ofStatus e.status, .str e.message))
    (.ok r.1, w.push c r.2)

/-- The name that the interpreter of a stack gives to chunks. -/
def configuredName : Api σ μ Bytes := do
  let vm ← c.shared
  return (((← get).instance? vm).map (·.chunkName)).getD .empty

/-- Compiles a chunk and reports the interpreter's own outcome. -/
def tryLoad (chunk : Bytes) : Api σ μ LoadOutcome := do
  let name ← c.configuredName
  c.tryLoadWith chunk name .any

/-- Compiles a chunk. What the interpreter leaves of a failed load becomes the failure's text. -/
def loadWith (chunk name : Bytes) (mode : LoadMode) : Api σ μ Unit := do
  let base ← c.top
  if (← c.tryLoadWith chunk name mode) = .ok then return
  let described := (← c.top) = base + 1 ∧ (← c.typeOf (-1)) = .string
  let text ←
    if described then
      fun w =>
        let (t, w) := w.popErrorText c
        (.ok (some t), w)
    else pure none
  c.cut base.toNat
  let e := Error.ofDescription text
  Api.modify (·.log .debug "chunk failed to load" [("error", e.message)])
  throw e

def load (chunk : Bytes) : Api σ μ Unit := do
  let name ← c.configuredName
  c.loadWith chunk name .any

def loadNamed (chunk : Bytes) (name : String) (mode : LoadMode) : Api σ μ Unit := do
  let name ← Api.check (chunkName? name)
  c.loadWith chunk name mode

/-- Calls the function at `base + 1` with the `nargs` values above it. On failure the stack is cut
back to `base`; otherwise the number of results, which stand from `base + 1` on. -/
def protectedCall (nargs : Nat) (results : ResultCount) (base : Nat) : Act σ μ Int := do
  if let .fixed n := results then
    Act.api (c.checkStack (n.toNat - nargs - 1))
  Act.update (·.log .trace "protected call" [("nargs", toString nargs), ("results", results.describe)])
  match ← ExceptT.lift (c.protect nargs results.want) with
  | none => return (← Act.api c.top) - base
  | some status =>
    let text ← ExceptT.lift (Run.onWorld fun w => w.popErrorText c)
    Act.api (c.cut base)
    Act.update (·.log .debug "protected call failed"
      [("message", text), ("status", toString status.code)])
    throw (.call text)

/-- Calls the value on top of the stack with some arguments and leaves the results in its
place. -/
def callInPlace (args : List Value) (results : ResultCount) : Act σ μ Int := do
  let depth ← Act.api c.top
  if depth < 1 then throw (.index (-1) depth)
  let base := (depth - 1).toNat
  if Word32.greatest < args.length then throw (.stackOverflow Word32.greatest)
  match ← ExceptT.lift (Run.api (c.pushAll args)) with
  | .error e =>
    Act.api (c.cut base)
    throw e
  | .ok () => c.protectedCall args.length results base

/-- Calls the value on top of the stack with some arguments; the results are read and removed. -/
def callWith (args : List Value) (results : ResultCount) : Act σ μ (List Value) := do
  let produced ← c.callInPlace args results
  let base := (← Act.api c.top) - produced
  let vs ← ExceptT.lift (Run.api (c.readBatch produced (some (base + 1))))
  Act.api (c.cut base.toNat)
  ExceptT.mk (pure vs)

/-- The length of a slot as scripts compute it. -/
def len (index : Int) : Act σ μ Value := do
  let pos ← Act.api (c.resolve index)
  Act.api (c.checkStack 2)
  let base ← Act.api c.top
  Act.update fun w => (w.push c (.builtin .lengthOfFirst)).push c (w.at_ c pos)
  discard (c.protectedCall 1 (.fixed 1) base.toNat)
  let v ← ExceptT.lift (Run.api (c.read (-1)))
  Act.api (c.cut base.toNat)
  ExceptT.mk (pure v)

end Context
end LuaEmbed
