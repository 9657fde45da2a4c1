import LuaEmbed.Host.Owner

/-!
Host programs: whatever a host can do with the bridge, as data. A program asks for one operation
after the other and goes on from the answers, and a host function is such a program; so what every
operation keeps is kept by every host.
-/
namespace LuaEmbed

open Engine

/-- Operations on one stack during which no code runs. -/
inductive StackOp : Type → Type where
  | top : StackOp Int
  | resolve (index : Int) : StackOp Int
  | setTop (n : Int) : StackOp Unit
  | checkStack (extra : Int) : StackOp Unit
  | pop (count : Int) : StackOp Unit
  | remove (index : Int) : StackOp Unit
  | duplicate (index : Int) : StackOp Unit
  | replace (index : Int) : StackOp Unit
  | rotate (index amount : Int) : StackOp Unit
  | copy (source target : Int) : StackOp Unit
  | typeOf (index : Int) : StackOp TypeTag
  | rawLen (index : Int) : StackOp Nat
  | push (v : Value) : StackOp Unit
  | pushAll (vs : List Value) : StackOp Unit
  | read (index : Int) : StackOp Value
  | readBatch (count : Int) (start : Option Int) : StackOp (List Value)
  | popValues (count : Int) : StackOp (List Value)
  | validate (h : Handle) : StackOp Unit
  | readForeign (index : Int) : StackOp (Option Value)
  | getGlobal (name : Bytes) : StackOp Value
  | setGlobal (name : Bytes) : StackOp Unit
  | transfer (target : Context) (count : Int) : StackOp Unit
  | sameVm (other : Context) : StackOp Bool
  | load (chunk : Bytes) : StackOp Unit
  | loadNamed (chunk : Bytes) (name : String) (mode : LoadMode) : StackOp Unit
  | tryLoad (chunk : Bytes) : StackOp LoadOutcome
  | newThread : StackOp ThreadHandle
  | currentThread : StackOp ThreadHandle
  | belongs (h : ThreadHandle) : StackOp Bool
  | status (h : ThreadHandle) : StackOp CoroutineStatus
  | fault : StackOp FaultEnd

/-- Operations on one stack that run code. -/
inductive CallOp : Type → Type where
  | call (args : List Value) (results : ResultCount) : CallOp (List Value)
  | callInPlace (args : List Value) (results : ResultCount) : CallOp Int
  | len (index : Int) : CallOp Value
  | registerModule (name : Bytes) (opener : ModuleOpener) (publish : Bool) : CallOp Value
  | openLib (lib : StdLib) : CallOp Unit
  | openStdLibs : CallOp Unit
  | resume (h : ThreadHandle) (args : List Value) : CallOp Resumed

/-- Everything a host can ask for. -/
inductive Op (σ μ : Type) : Type → Type 1 where
  | stack {α : Type} (c : Context) (o : StackOp α) : Op σ μ (Except Error α)
  | run {α : Type} (c : Context) (o : CallOp α) : Op σ μ (Except Error α)
  | view (h : ThreadHandle) : Op σ μ (Except Error View)
  | dropView (v : View) : Op σ μ Unit
  | newInstance (config : Config) : Op σ μ (Except Error Nat)
  | dropOwner (vm : Nat) : Op σ μ Unit
  | installHook (h : FatalHook) : Op σ μ (Option FatalHook)
  | resetHook : Op σ μ (Option FatalHook)
  | hook : Op σ μ (Option FatalHook)
  | newFunction (shape : FunctionShape) (code : σ) : Op σ μ Value
  | newForeign (payload : String) : Op σ μ Value
  | retain (v : Value) : Op σ μ Unit
  | release (v : Value) : Op σ μ Unit
  /-- A foreign object's payload and number of references. -/
  | foreign (id : Nat) : Op σ μ (Option (String × Nat))
  /-- Lets allocation fail, or succeed again. -/
  | starve (vm : Nat) (on : Bool) : Op σ μ Unit
  /-- Stops the collector, or starts it again. -/
  | halt (vm : Nat) (on : Bool) : Op σ μ Unit
  | memory : Op σ μ μ
  | modifyMemory (f : μ → μ) : Op σ μ Unit

/-- A host program that ends with an `α`. -/
inductive Program (σ μ : Type) (α : Type) : Type 1 where
  | pure (a : α)
  | step {β : Type} (o : Op σ μ β) (k : β → Program σ μ α)

namespace Program

variable {σ μ α β : Type}

def bind : Program σ μ α → (α → Program σ μ β) → Program σ μ β
  | .pure a, f => f a
  | .step o k, f => .step o fun b => (k b).bind f

instance : Monad (Program σ μ) where
  pure := .pure
  bind := .bind

instance [Inhabited α] : Inhabited (Program σ μ α) := ⟨.pure default⟩

/-- A program of one operation. -/
def ask (o : Op σ μ α) : Program σ μ α := .step o .pure

end Program

/-- How a host function ends. -/
inductive Outcome (α : Type) where
  | done (a : α)
  | failed (e : Error)
  | panicked (p : Panic)

/-- What the host's functions do: a raw one works on the caller's arguments and says how many
results it leaves, a list one maps arguments to results. -/
structure HostCode (σ μ : Type) where
  raw : σ → Context → Program σ μ (Outcome Nat)
  list : σ → Context → List Value → Program σ μ (Outcome (List Value))

variable {σ μ α : Type}

/-- What an operation does. -/
def StackOp.perform (c : Context) : StackOp α → Api σ μ α
  | .top => c.top
  | .resolve i => c.resolve i
  | .setTop n => c.setTop n
  | .checkStack n => c.checkStack n
  | .pop n => c.pop n
  | .remove i => c.remove i
  | .duplicate i => c.duplicate i
  | .replace i => c.replace i
  | .rotate i n => c.rotate i n
  | .copy i j => c.copy i j
  | .typeOf i => c.typeOf i
  | .rawLen i => c.rawLen i
  | .push v => c.push v
  | .pushAll vs => c.pushAll vs
  | .read i => c.read i
  | .readBatch n s => c.readBatch n s
  | .popValues n => c.popValues n
  | .validate h => c.validate h
  | .readForeign i => c.readForeign i
  | .getGlobal n => c.getGlobal n
  | .setGlobal n => c.setGlobal n
  | .transfer t n => c.transfer t n
  | .sameVm o => c.sameVm o
  | .load s => c.load s
  | .loadNamed s n m => c.loadNamed s n m
  | .tryLoad s => c.tryLoad s
  | .newThread => c.newThread
  | .currentThread => c.currentThread
  | .belongs h => c.owns h
  | .status h => h.status c
  | .fault => World.fault c

def CallOp.perform (c : Context) : CallOp α → Act σ μ α
  | .call args n => c.callWith args n
  | .callInPlace args n => c.callInPlace args n
  | .len i => c.len i
  | .registerModule n o p => c.registerModule n o p
  | .openLib l => c.openLib l
  | .openStdLibs => c.openStdLibs
  | .resume h args => h.resume c args

def Op.perform : Op σ μ α → Run σ μ α
  | .stack c o => Run.api (o.perform c)
  | .run c o => o.perform c
  | .view h => Run.api (h.view true)
  | .dropView v => World.dropView v true
  | .newInstance config => World.newInstance config
  | .dropOwner vm => World.dropOwner vm
  | .installHook h => Run.onWorld (·.exchangeHook (some h))
  | .resetHook => Run.onWorld (·.exchangeHook none)
  | .hook => Run.onWorld fun w => (w.hook, w)
  | .newFunction shape code => Run.onWorld (·.newFunction shape code)
  | .newForeign payload => Run.onWorld (·.newForeign payload)
  | .retain v => Run.update (·.retain v)
  | .release v => Run.update (·.release v)
  | .foreign id => Run.onWorld fun w =>
    ((w.foreigns.get? id).map fun x => (x.object, x.strong), w)
  | .starve vm on => Run.update (·.modifyHeap vm ({ · with starved := on }))
  | .halt vm on => Run.update (·.modifyHeap vm ({ · with halted := on }))
  | .memory => Run.onWorld fun w => (w.memory, w)
  | .modifyMemory f => Run.update fun w => { w with memory := f w.memory }

/-! ### Operations that make objects -/

namespace World

variable (w : World σ μ) (c : Context)

/-- Whether the engine makes a text to look at a value: it asks the metatable of a userdata for a name. -/
def asksName : Val → Bool
  | .userdata i => ((w.heap c.vm).metatable? (.userdata i)).isSome
  | _ => false

/-- The value that a handle is checked against. -/
def checked (h : Handle) : List Val :=
  if 1 ≤ h.position ∧ h.position ≤ w.depth c then [w.at_ c h.position] else []

/-- The values in a window of a stack. -/
def window (count : Int) (start : Option Int) : List Val :=
  match Index.resolveWindow count start (w.depth c) with
  | .ok first => ((w.slots c).toList.drop (first - 1).toNat).take count.toNat
  | .error _ => []

/-- Whether the engine makes an object when a value is pushed. -/
def makes : Value → Bool
  | .text _ | .function .. | .foreign _ => true
  | .handle h => (w.checked c h).any (w.asksName c)
  | _ => false

end World

/-- The values that an operation looks at. -/
def StackOp.looksAt (w : World σ μ) (c : Context) : StackOp α → List Val
  | .read i =>
    match Index.resolve i (w.depth c) with
    | .ok pos => [w.at_ c pos]
    | .error _ => []
  | .readBatch n s => w.window c n s
  | .popValues n => w.window c n none
  | .validate h => w.checked c h
  | _ => []

/-- Whether the engine makes an object in the course of an operation. It makes none before the room that
the operation asks for is granted. -/
def StackOp.makes (w : World σ μ) (c : Context) (o : StackOp α) : Bool :=
  let granted (n : Nat) : Bool := (w.reserve c n).1
  match o with
  | .push v => granted 3 && w.makes c v
  | .pushAll vs => granted vs.length && vs.any (w.makes c)
  | .getGlobal _ => granted 3
  | .setGlobal _ => granted 3 && w.depth c != 0
  | .load _ | .tryLoad _ => granted 1
  | .loadNamed _ name _ => granted 1 && (chunkName? name).isOk
  | .newThread => granted 2
  | o => granted 2 && (o.looksAt w c).any (w.asksName c)

def CallOp.makes (w : World σ μ) (c : Context) : CallOp α → Bool
  | .call args _ | .callInPlace args _ => (w.reserve c args.length).1 && args.any (w.makes c)
  | .registerModule .. | .openLib _ | .openStdLibs => (w.reserve c 5).1
  | .len _ | .resume .. => false

/-- The stack on which an operation has the engine make an object. -/
def Op.maker? (w : World σ μ) : Op σ μ α → Option Context
  | .stack c o => if o.makes w c then some c else none
  | .run c o => if o.makes w c then some c else none
  | _ => none

/-- The turn that the collector may take in an operation that makes an object. It comes first here; in the
engine it comes when the object is made. -/
def Op.turn (o : Op σ μ α) : Run σ μ Unit := do
  match o.maker? (← get) with
  | some c => discard (Run.drive c (.need .pause))
  | none => return

/-- What a program does. -/
def Program.perform : Program σ μ α → Run σ μ α
  | .pure a => Pure.pure a
  | .step o k => do
    o.turn
    (k (← o.perform)).perform

end LuaEmbed
