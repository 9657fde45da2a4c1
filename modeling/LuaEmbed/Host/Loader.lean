import LuaEmbed.Host.Call

/-!
Loading by any loader. What the bridge does around a load is the same whatever the interpreter makes of a
chunk: the loader is taken as given here, and that of the interpreters is one of them.
-/
namespace LuaEmbed

open Engine

variable {σ μ : Type}

/-- What an interpreter makes of a chunk under a name in a mode: an outcome and the one value that it
leaves, with the objects that there are then. How deeply calls are nested and the objects that there
have been may play a part. -/
abbrev Loader := Bytes → Bytes → LoadMode → (depth : Nat) → Heap → (LoadOutcome × Val) × Heap

namespace Loader

/-- The loader that interpreters have. -/
def standard : Loader := fun chunk name mode depth h =>
  match Chunk.load chunk name mode.letters depth h with
  | .ok (f, h') => ((.ok, f), h')
  | .error e => ((.ofStatus e.status, .str e.message), h)

/-- The text of a failure, by the value that the loader has left. -/
def report : Val → String
  | .str s => s.toStringLossy
  | _ => "unknown error"

variable (l : Loader) (c : Context)

/-- What an interpreter with this loader makes of a chunk. -/
def compiled (chunk name : Bytes) (mode : LoadMode) (depth : Nat) (vm : Vm) : Vm × (LoadOutcome × Val) :=
  let (r, h) := l chunk name mode depth vm.heap
  ({ vm with heap := h }, r)

/-- Loads a chunk and leaves whatever comes of it on the stack. -/
def tryLoadWith (chunk name : Bytes) (mode : LoadMode) : Api σ μ LoadOutcome := do
  c.checkStack 1
  fun w =>
    let (r, w') := w.onVm c.vm (l.compiled chunk name mode (w.thread c).top.depth)
    (.ok r.1, w'.push c r.2)

/-- Cuts a stack back and fails, with a text or without. -/
def abandon (c : Context) (base : Int) (text : Option String) : Api σ μ Unit := do
  c.cut base.toNat
  let e := Error.ofDescription text
  Api.modify (·.log .debug "chunk failed to load" [("error", e.message)])
  throw e

/-- What is made of an outcome: a failure is taken off the stack, whose depth before is known. -/
def conclude (c : Context) (base : Int) (o : LoadOutcome) : Api σ μ Unit := do
  if o = .ok then return
  let described := (← c.top) = base + 1 ∧ (← c.typeOf (-1)) = .string
  let text ←
    if described then
      fun w =>
        let (t, w) := w.popErrorText c
        (.ok (some t), w)
    else pure none
  abandon c base text

def loadWith (chunk name : Bytes) (mode : LoadMode) : Api σ μ Unit := do
  let base ← c.top
  let o ← l.tryLoadWith c chunk name mode
  conclude c base o

def tryLoad (chunk : Bytes) : Api σ μ LoadOutcome := do
  let name ← c.configuredName
  l.tryLoadWith c chunk name .any

def load (chunk : Bytes) : Api σ μ Unit := do
  let name ← c.configuredName
  l.loadWith c chunk name .any

def loadNamed (chunk : Bytes) (name : String) (mode : LoadMode) : Api σ μ Unit := do
  let name ← Api.check (chunkName? name)
  l.loadWith c chunk name mode

end Loader
end LuaEmbed
